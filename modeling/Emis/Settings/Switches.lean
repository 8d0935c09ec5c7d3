import Emis.Settings.Effects

/-!
# Modules and what they need

Whatever administrators turn on and off at once, a module that is on has what it needs,
and a request is refused for that exactly when it would break it.
-/

namespace Emis.Settings

open Transactions Protocol ModulesService

/-- Every module that is on has what it needs. -/
def Consistent (d : Db) : Prop := ∀ key, enabledIn d key = true → ∀ dep ∈ (MODULES key).requires, enabledIn d dep = true

/-- The switches change under the advisory lock. -/
def switches : Protocol Db Lock where
  Inv := Consistent
  Guar S d d' := .modules ∈ S ∨ d'.modules = d.modules

/-- The call turns this module. -/
def Call.Turns (q : Call) (key : ModuleKey) (enabled : Bool) : Prop :=
  hasPermission q.grants .settingsManage = true ∧
    ∃ value, q.request = .setModule value enabled ∧ moduleKey? value = some key

/-- What a call that turns a module is answered. -/
def Call.Turned (q : Call) (r : Except Error Reply) (d d' : Db) : Prop :=
  ∀ key enabled, q.Turns key enabled →
    (Consistent (switch key enabled d) →
      r = .ok (.modules (states d')) ∧ enabledIn d' = Function.update (enabledIn d) key enabled) ∧
    (¬ Consistent (switch key enabled d) → r = .error (refusal d key enabled) ∧ d' = d)

section Logic

variable {d d' : Db} {key : ModuleKey} {enabled : Bool}

@[simp] theorem enabledIn_switch : enabledIn (switch key enabled d) = Function.update (enabledIn d) key enabled := by
  funext k
  by_cases hk : k = key
  · subst hk
    simp [enabledIn, switch]
  · simp [enabledIn, switch, hk]

theorem enabledIn_of_modules (h : d'.modules = d.modules) : enabledIn d' = enabledIn d := by
  funext k
  rw [enabledIn, enabledIn, h]

theorem refusal_of_modules (h : d'.modules = d.modules) : refusal d' key enabled = refusal d key enabled := by
  simp only [refusal, missing, dependents, enabledIn_of_modules h]

theorem consistent_of_modules (h : enabledIn d' = enabledIn d) : Consistent d' ↔ Consistent d := by
  rw [Consistent, Consistent, h]

theorem mem_keys (key : ModuleKey) : key ∈ MODULE_KEYS := by
  cases key <;> decide

/-- No module needs itself. -/
theorem not_requires_self (key : ModuleKey) : key ∉ (MODULES key).requires := by
  cases key <;> decide

/-- What is asked before a module is turned is whether all modules then have what they need. -/
theorem allowed_iff (hd : Consistent d) : allowed d key enabled = true ↔ Consistent (switch key enabled d) := by
  cases enabled with
  | true =>
      simp only [allowed, missing, if_true, List.isEmpty_iff, List.filter_eq_nil_iff, Bool.not_eq_true',
        Bool.not_eq_false, Consistent, enabledIn_switch]
      constructor
      · intro hneeds k hk dep hdep
        by_cases hdep_key : dep = key
        · simp [hdep_key]
        rw [Function.update_of_ne hdep_key]
        by_cases hk_key : k = key
        · exact hneeds dep (hk_key ▸ hdep)
        · rw [Function.update_of_ne hk_key] at hk
          exact hd k hk dep hdep
      · intro hafter dep hdep
        have hdep_key : dep ≠ key := by
          rintro rfl
          exact not_requires_self dep hdep
        have hon := hafter key (by simp) dep hdep
        rwa [Function.update_of_ne hdep_key] at hon
  | false =>
      simp only [allowed, dependents, Bool.false_eq_true, if_false, List.isEmpty_iff, List.filter_eq_nil_iff,
        Bool.and_eq_true, List.contains_iff_mem, not_and, Consistent, enabledIn_switch]
      constructor
      · intro hnone k hk dep hdep
        by_cases hk_key : k = key
        · simp [hk_key] at hk
        rw [Function.update_of_ne hk_key] at hk
        by_cases hdep_key : dep = key
        · exact (hnone k (mem_keys k) hk (hdep_key ▸ hdep)).elim
        · rw [Function.update_of_ne hdep_key]
          exact hd k hk dep hdep
      · intro hafter other _ hon hneeds
        have hother : other ≠ key := by
          rintro rfl
          exact not_requires_self other hneeds
        have hoff := hafter other (by rwa [Function.update_of_ne hother]) key hneeds
        simp at hoff

end Logic

/-! ## The requests -/

section Requests

variable {d d' : Db} {S : Set Lock}

theorem switches_modules (h : switches.Rely S d d') (hlock : .modules ∈ S) : d'.modules = d.modules := by
  refine h.same fun d₁ d₂ ⟨_, T, hdisj, hguar⟩ => ?_
  exact hguar.resolve_left fun hheld => Set.disjoint_left.1 hdisj hlock hheld

/-- The only way to turn a module. -/
theorem turns_iff {q : Call} {value : String} {turned enabled : Bool} {key : ModuleKey}
    (hrequest : q.request = .setModule value turned) :
    q.Turns key enabled ↔ hasPermission q.grants .settingsManage = true ∧ turned = enabled ∧ moduleKey? value = some key := by
  simp only [Call.Turns, hrequest, Request.setModule.injEq]
  constructor
  · rintro ⟨hmay, v, ⟨rfl, rfl⟩, hkey⟩
    exact ⟨hmay, rfl, hkey⟩
  · rintro ⟨hmay, rfl, hkey⟩
    exact ⟨hmay, value, ⟨rfl, rfl⟩, hkey⟩

theorem turned_ok {q : Call} {key : ModuleKey} {enabled : Bool} (hd : Consistent d)
    (hq : ∀ k b, q.Turns k b → k = key ∧ b = enabled) (hallowed : allowed d key enabled = true) {a : Reply}
    (ha : a = .modules (states d')) (hd' : enabledIn d' = Function.update (enabledIn d) key enabled) :
    q.Turned (.ok a) d d' := by
  intro k b hturns
  obtain ⟨rfl, rfl⟩ := hq k b hturns
  exact ⟨fun _ => ⟨congrArg _ ha, hd'⟩, fun hbroken => (hbroken ((allowed_iff hd).1 hallowed)).elim⟩

theorem turned_error {q : Call} {key : ModuleKey} {enabled : Bool} (hd : Consistent d)
    (hq : ∀ k b, q.Turns k b → k = key ∧ b = enabled) (hrefused : allowed d key enabled = false) {e : Error}
    (he : e = refusal d key enabled) : q.Turned (.error e) d d := by
  intro k b hturns
  obtain ⟨rfl, rfl⟩ := hq k b hturns
  refine ⟨fun hfine => ?_, fun _ => ⟨congrArg _ he, rfl⟩⟩
  simp [(allowed_iff hd).2 hfine] at hrefused

theorem setModule_turned (value : String) (enabled : Bool) (grants : List Grant) :
    switches.wp (switches.Done fun a d d' => (⟨.setModule value enabled, grants⟩ : Call).Turned (.ok a) d d')
      (switches.Failed fun e d => (⟨.setModule value enabled, grants⟩ : Call).Turned (.error e) d d)
      (⟨.setModule value enabled, grants⟩ : Call).code ∅ id d := by
  have hturns : ∀ {key turned}, (⟨.setModule value enabled, grants⟩ : Call).Turns key turned →
      hasPermission grants .settingsManage = true ∧ enabled = turned ∧ moduleKey? value = some key := fun h =>
    (turns_iff rfl).1 h
  rw [Call.code, wp_bind, wp_require]
  refine ⟨fun hmay => ?_, fun hno d' _ _ key turned h => by simp [(hturns h).1] at hno⟩
  have hmods : Lock.modules ∈ insert Lock.modules (∅ : Set Lock) := Set.mem_insert _ _
  have hq : ∀ {key}, moduleKey? value = some key →
      ∀ k b, (⟨.setModule value enabled, grants⟩ : Call).Turns k b → k = key ∧ b = enabled := by
    intro key hkey k b h
    obtain ⟨-, rfl, hk⟩ := hturns h
    exact ⟨Option.some.inj (hk.symm.trans hkey), rfl⟩
  rw [Request.service, wp_map]
  simp only [ModulesService.set, wp_bind, wp_expect, wp_acquire, wp_get, wp_require, wp_when, wp_modify, wp_pure,
    id_eq, Function.comp_id]
  refine ⟨fun key hkey d₁ _ _ d₂ _ hi₂ => ⟨fun hallowed => ⟨fun hchanges d₃ hr₃ _ d₄ hr₄ _ d' hr hi => ?_,
    fun hsame d₃ hr₃ _ d' hr hi => ?_⟩, fun hrefused d' hr hi => ?_⟩, fun hnone d' _ _ key turned h => ?_⟩
  · have hlock : Lock.modules ∈ insert (Lock.moduleSwitch key) (insert Lock.modules ∅) := Set.mem_insert_of_mem _ hmods
    have hlast : d'.modules = d₄.modules := switches_modules hr hlock
    have hmodules : d'.modules = d₂.modules :=
      hlast.trans ((switches_modules hr₄ hlock).trans (switches_modules hr₃ hmods))
    have hallowed' : allowed d' key enabled = true := (modules_same hmodules key enabled).2.1.trans hallowed
    refine ⟨.inl hlock, (allowed_iff hi).1 hallowed', ?_⟩
    exact turned_ok hi (hq hkey) hallowed' (congrArg _ (modules_same hlast key enabled).2.2.2.symm) enabledIn_switch
  · have hlast : d'.modules = d₃.modules := switches_modules hr hmods
    have hmodules : d'.modules = d₂.modules := hlast.trans (switches_modules hr₃ hmods)
    obtain ⟨henabled, hallowed', -, -⟩ := modules_same hmodules key enabled
    refine ⟨.inr rfl, hi, turned_ok hi (hq hkey) (hallowed'.trans hallowed)
      (congrArg _ (modules_same hlast key enabled).2.2.1.symm) ?_⟩
    have hkept : enabledIn d' key = enabled := by
      rw [henabled]
      simpa using hsame
    rw [← hkept, Function.update_eq_self]
    rfl
  · have hmodules : d'.modules = d₂.modules := switches_modules hr hmods
    refine turned_error hi (hq hkey) ((modules_same hmodules key enabled).2.1.trans hrefused) ?_
    exact (refusal_of_modules hmodules).symm
  · rw [(hturns h).2.2] at hnone
    cases hnone

theorem code_turned (q : Call) (hd : Consistent d) : switches.wp (switches.Done fun a d d' => q.Turned (.ok a) d d')
    (switches.Failed fun e d => q.Turned (.error e) d d) q.code ∅ id d := by
  by_cases hsets : ∃ value enabled, q.request = .setModule value enabled
  · obtain ⟨request, grants⟩ := q
    obtain ⟨value, enabled, rfl⟩ := hsets
    exact setModule_turned value enabled grants
  · have hnot : ∀ {key enabled}, ¬ q.Turns key enabled := fun ⟨_, value, hrequest, _⟩ => hsets ⟨value, _, hrequest⟩
    have hkeeps : q.code.Keeps Db.modules := .bind (.require _ _) fun _ =>
      service_keeps (fun _ _ => rfl) (fun _ _ => rfl) (fun _ _ => rfl) (fun _ _ => rfl) (fun _ _ => rfl) q.request
        fun value enabled hrequest => (hsets ⟨value, enabled, hrequest⟩).elim
    refine wp_of_keeps hkeeps hd (fun a S' g d' _ hg _ _ d'' _ hi'' => ?_) fun e S' d' _ _ _ d'' _ _ _ _ hturns =>
      (hnot hturns).elim
    have hmodules : (g d'').modules = d''.modules := hg d''
    exact ⟨.inr hmodules, (consistent_of_modules (enabledIn_of_modules hmodules)).2 hi'', fun _ _ hturns =>
      (hnot hturns).elim⟩

end Requests

/-! ## Runs -/

/-- A module that is on has what it needs, in every world. A request that turns a module
is answered with the switches, and turns just this one, where all modules then have what
they need; elsewhere it is refused and nothing changes. -/
theorem modules_consistent {ι : Type} [DecidableEq ι] {start w : World ι Call Db Lock Error Reply}
    (hidle : start.Idle) (hstart : Consistent start.db) (hw : Reachable Call.code start w) :
    Consistent w.db ∧ ∀ i q r w', Step Call.code w (.answers i q r) w' → q.Turned r w.db w'.db := by
  have hsound : switches.Sound (fun (q : Call) a d d' => q.Turned (.ok a) d d')
      (fun q e d => q.Turned (.error e) d d) w :=
    Sound.reachable (fun q _ hd => code_turned q hd) (.of_idle hidle hstart) hw
  refine ⟨hsound.inv, fun i q r w' hstep => ?_⟩
  cases r with
  | ok a => exact Sound.answer hsound hstep
  | error e =>
      obtain ⟨hsame, hturned⟩ := Sound.error hsound hstep
      rw [hsame]
      exact hturned

/-! ## Two administrators -/

def turn (value : String) (enabled : Bool) : Call := ⟨.setModule value enabled, administrator⟩

/-- One turns pre-registration on while the other turns the website off. -/
def toggles : List (Move Call) :=
  [.begins true (turn "pre_registration" true), .begins false (turn "website" false), .turns true 1, .turns false 2,
    .turns true 5, .turns false 2]

def closed : Db := { modules := fun key => if key = .preRegistration then some false else none }

def toggled : Duo Call Db Lock Error Reply := (Duo.idle closed).play Call.code toggles

theorem consistent_closed : Consistent closed := by
  intro key hkey dep hdep
  cases key <;> simp_all [enabledIn, closed, MODULES]

/-- The one who gets the lock second is refused. -/
theorem modules_consistent_toggled : Consistent toggled.world.db ∧
    enabledIn toggled.world.db .preRegistration = true ∧ enabledIn toggled.world.db .website = true ∧
    ¬ Consistent (switch .website false toggled.world.db) := by
  have hreach : Reachable Call.code (Duo.idle closed : Duo Call Db Lock Error Reply).world toggled.world :=
    Duo.play_reachable Call.code _ toggles
  obtain ⟨hconsistent, hturned⟩ := modules_consistent (fun _ => rfl) consistent_closed hreach
  have hrefused : Step Call.code toggled.world (.answers false (turn "website" false)
      (.error (settingsErrors.moduleDependency "Turn off Online pre-registration first."))) _ :=
    Duo.turn_fail Call.code (S := _) (f := _) rfl
  have hturns : (turn "website" false).Turns .website false := ⟨by decide, "website", rfl, by decide⟩
  refine ⟨hconsistent, by rfl, by rfl, fun hfine => ?_⟩
  have hok := (hturned _ _ _ _ hrefused .website false hturns).1 hfine
  cases hok.1

end Emis.Settings
