import Emis.Identity.AcceptedSteps
import Emis.Messaging.Received

/-!
# Codes that work once

Time steps are accepted once for each factor, recovery codes once, the fifth wrong code ends the
session, and who is refused is not marked as verified.
-/

namespace Emis.Identity

open Transactions Machines

namespace MfaState

variable {Key : Type} {crypto : Crypto Key} {box : SecretBox Key} {s s' : MfaState} {i : ℕ} {auth : AuthContext}
  {env : MfaEnv} {p : MfaPoint}

/-! ## Recovery codes -/

def consumedCode : MfaNote → Option Uuid
  | .consumed _ codeId => some codeId
  | _ => none

def consumedCodes (s : MfaState) : List Uuid := s.notes.filterMap consumedCode

structure CodesInv (s : MfaState) : Prop where
  ids : (s.db.recoveryCodes.map RecoveryCodeRow.id).Nodup
  given : ∀ c ∈ s.db.recoveryCodes, c.id ∈ s.given
  consumed : ∀ id ∈ s.consumedCodes, id ∈ s.given ∧ ∀ c ∈ s.db.recoveryCodes, c.id = id → c.usedAt.isSome = true
  once : s.consumedCodes.Nodup

/-- No code is used, and there may be new ones. -/
theorem CodesInv.frame (hinv : CodesInv s) {rows new : List RecoveryCodeRow}
    (hcodes : s'.db.recoveryCodes = rows ++ new) (hrows : List.Sublist rows s.db.recoveryCodes)
    (hnew : (new.map RecoveryCodeRow.id).Nodup ∧ ∀ c ∈ new, c.id ∉ s.given ∧ c.id ∈ s'.given)
    (hgiven : ∀ id ∈ s.given, id ∈ s'.given) (hnotes : s'.consumedCodes = s.consumedCodes) : CodesInv s' := by
  refine ⟨?_, fun c hc => ?_, fun id hid => ?_, hnotes ▸ hinv.once⟩
  · rw [hcodes, List.map_append, List.nodup_append]
    refine ⟨hinv.ids.sublist (hrows.map _), hnew.1, fun a ha b hb hab => ?_⟩
    obtain ⟨c, hc, rfl⟩ := List.mem_map.1 ha
    obtain ⟨c', hc', rfl⟩ := List.mem_map.1 hb
    exact (hnew.2 c' hc').1 (hab ▸ hinv.given c (hrows.subset hc))
  · rw [hcodes, List.mem_append] at hc
    rcases hc with hc | hc
    · exact hgiven _ (hinv.given c (hrows.subset hc))
    · exact (hnew.2 c hc).2
  · rw [hnotes] at hid
    obtain ⟨hknown, hused⟩ := hinv.consumed id hid
    refine ⟨hgiven _ hknown, fun c hc heq => ?_⟩
    rw [hcodes, List.mem_append] at hc
    rcases hc with hc | hc
    · exact hused c (hrows.subset hc) heq
    · exact absurd (heq ▸ hknown) (hnew.2 c hc).1

theorem CodesInv.same (hinv : CodesInv s) (hcodes : s'.db.recoveryCodes = s.db.recoveryCodes)
    (hgiven : ∀ id ∈ s.given, id ∈ s'.given) (hnotes : s'.consumedCodes = s.consumedCodes) : CodesInv s' :=
  have hnone : s'.db.recoveryCodes = s.db.recoveryCodes ++ [] := hcodes.trans (List.append_nil _).symm
  hinv.frame hnone (List.Sublist.refl _) (by simp) hgiven hnotes

theorem consumedCodes_note (s : MfaState) (rows : List RecoveryCodeRow) :
    (s.note (rows.map fun c => .consumed i c.id)).consumedCodes = s.consumedCodes ++ rows.map RecoveryCodeRow.id := by
  rw [consumedCodes, note, List.filterMap_append, List.filterMap_map, ← consumedCodes, ← List.filterMap_eq_map]
  rfl

/-- Codes that have not been used are marked. -/
theorem CodesInv.consume (hinv : CodesInv s) (env : MfaEnv) (userId : Uuid) (code : String)
    (hcodes : s'.db.recoveryCodes = changeWhere (MfaService.unusedCode env userId code)
      (fun c => { c with usedAt := some env.now }) s.db.recoveryCodes)
    (hgiven : ∀ id ∈ s.given, id ∈ s'.given)
    (hnotes : s'.consumedCodes = s.consumedCodes ++
      (s.db.recoveryCodes.filter (MfaService.unusedCode env userId code)).map RecoveryCodeRow.id) : CodesInv s' := by
  have hrow : ∀ c ∈ s'.db.recoveryCodes, ∃ c₀ ∈ s.db.recoveryCodes, c₀.id = c.id ∧
      (MfaService.unusedCode env userId code c₀ = true ∨ c₀.usedAt.isSome = true → c.usedAt.isSome = true) := by
    intro c hc
    rw [hcodes] at hc
    obtain ⟨c₀, hc₀, rfl⟩ := mem_changeWhere.1 hc
    refine ⟨c₀, hc₀, ?_⟩
    split
    · exact ⟨rfl, fun _ => rfl⟩
    · rename_i hmiss
      exact ⟨rfl, fun h => h.resolve_left hmiss⟩
  refine ⟨?_, fun c hc => ?_, fun id hid => ?_, ?_⟩
  · have hkey : ∀ c : RecoveryCodeRow, ({ c with usedAt := some env.now } : RecoveryCodeRow).id = c.id := fun _ => rfl
    rw [hcodes, map_changeWhere hkey]
    exact hinv.ids
  · obtain ⟨c₀, hc₀, hid, -⟩ := hrow c hc
    exact hgiven _ (hid ▸ hinv.given c₀ hc₀)
  · rw [hnotes, List.mem_append] at hid
    rcases hid with hid | hid
    · obtain ⟨hknown, hused⟩ := hinv.consumed id hid
      refine ⟨hgiven _ hknown, fun c hc heq => ?_⟩
      obtain ⟨c₀, hc₀, hsame, hmarked⟩ := hrow c hc
      exact hmarked (.inr (hused c₀ hc₀ (hsame.trans heq)))
    · obtain ⟨c₁, hc₁, rfl⟩ := List.mem_map.1 hid
      obtain ⟨hmem, hhit⟩ := List.mem_filter.1 hc₁
      refine ⟨hgiven _ (hinv.given c₁ hmem), fun c hc heq => ?_⟩
      obtain ⟨c₀, hc₀, hsame, hmarked⟩ := hrow c hc
      obtain rfl : c₀ = c₁ := List.inj_on_of_nodup_map hinv.ids hc₀ hmem (hsame.trans heq)
      exact hmarked (.inl hhit)
  · rw [hnotes, List.nodup_append]
    refine ⟨hinv.once, hinv.ids.sublist (List.filter_sublist.map _), fun a ha b hb hab => ?_⟩
    obtain ⟨c, hc, rfl⟩ := List.mem_map.1 hb
    obtain ⟨hmem, hhit⟩ := List.mem_filter.1 hc
    have hused := (hinv.consumed a ha).2 c hmem hab.symm
    rw [Option.isNone_iff_eq_none.1 (Bool.and_eq_true_iff.1 hhit).2] at hused
    cases hused

theorem turn_codes (hinv : CodesInv s) (hnodup : (ids env).Nodup) (hfresh : ∀ id ∈ ids env, id ∉ s.given)
    (h : Turn crypto box (s.giving env) i auth env p s') : CodesInv s' := by
  have hgiven : ∀ id ∈ s.given, id ∈ s.given ++ ids env := fun id h => List.mem_append_left _ h
  have hnotes : ∀ notes, notes.filterMap consumedCode = [] →
      (s.notes ++ notes).filterMap consumedCode = s.consumedCodes := by
    intro notes hnone
    rw [List.filterMap_append, hnone, List.append_nil, consumedCodes]
  cases h with
  | goes => exact hinv.same rfl hgiven rfl
  | refuses | claims | rotates | fails => exact hinv.same rfl hgiven (hnotes _ rfl)
  | stores hstored =>
      refine hinv.same rfl hgiven (hnotes _ ?_)
      subst hstored
      split
      · rfl
      · rfl
  | enables =>
      have hids : (MfaService.codeRows env auth.userId).map RecoveryCodeRow.id = env.codes.map Prod.fst := by
        rw [MfaService.codeRows, List.map_map]
        rfl
      refine hinv.frame rfl List.filter_sublist ⟨?_, fun c hc => ?_⟩ hgiven (hnotes _ rfl)
      · rw [hids]
        exact (List.nodup_cons.1 hnodup).2
      · have hmem : c.id ∈ ids env := List.mem_cons_of_mem _ (hids ▸ List.mem_map_of_mem hc)
        exact ⟨hfresh _ hmem, List.mem_append_right _ hmem⟩
  | @consumes code _ => exact hinv.consume env auth.userId code rfl hgiven (consumedCodes_note _ _)
  | revokes => exact hinv.same rfl hgiven rfl
  | removes =>
      have hnone : ∀ rows : List RecoveryCodeRow, rows = rows ++ [] := fun rows => (List.append_nil rows).symm
      exact hinv.frame (hnone _) List.filter_sublist (by simp) hgiven rfl

/-! ## Wrong codes -/

/-- A session's wrong codes after one more note. -/
def counted (sessionId : Uuid) (n : ℕ) : MfaNote → ℕ
  | .wrong _ id _ => if id = sessionId then n + 1 else n
  | .passed _ id => if id = sessionId then 0 else n
  | .stored _ | .accepted .. | .consumed .. | .handed .. => n

/-- The wrong codes of a session since its last accepted one. -/
def wrongCodes (sessionId : Uuid) (notes : List MfaNote) : ℕ := notes.foldl (counted sessionId) 0

theorem wrongCodes_append (sessionId : Uuid) (notes more : List MfaNote) :
    wrongCodes sessionId (notes ++ more) = more.foldl (counted sessionId) (wrongCodes sessionId notes) :=
  List.foldl_append

/-- No wrong code came to `disable` from the session. -/
def Undisturbed (s : MfaState) (sessionId : Uuid) : Prop := ∀ i, .wrong i sessionId false ∉ s.notes

/-- All sessions of this id are revoked, or a call is about to revoke them. -/
def Ended (s : MfaState) (sessionId : Uuid) : Prop :=
  (∀ x ∈ s.db.sessions, x.id = sessionId → x.revokedAt.isSome = true) ∨
    ∃ call ∈ s.calls, call.point = .revoke ∧ call.auth.sessionId = sessionId

structure CountsInv (s : MfaState) : Prop where
  counts : ∀ id, s.Undisturbed id → ∀ x ∈ s.db.sessions, x.id = id → wrongCodes id s.notes ≤ x.mfaFailedAttempts
  ended : ∀ id, s.Undisturbed id → MAX_MFA_ATTEMPTS ≤ wrongCodes id s.notes → s.Ended id

theorem revoking_stays {calls : List MfaCall} (hcall : calls[i]? = some ⟨auth, p⟩) (hp : p ≠ .revoke) {call x : MfaCall}
    (hmem : call ∈ calls) (hpoint : call.point = .revoke) : call ∈ calls.set i x := by
  obtain ⟨j, hj⟩ := List.mem_iff_getElem?.1 hmem
  have hij : i ≠ j := by
    rintro rfl
    obtain rfl := Option.some.inj (hcall.symm.trans hj)
    exact hp hpoint
  exact List.mem_iff_getElem?.2 ⟨j, by rw [List.getElem?_set_ne hij, hj]⟩

/-- What the sessions and the notes become, where the calls that revoke still do or have done so. -/
theorem CountsInv.step (hinv : CountsInv s)
    (hundisturbed : ∀ id, s'.Undisturbed id → s.Undisturbed id)
    (hrows : ∀ x' ∈ s'.db.sessions, ∃ x ∈ s.db.sessions, x'.id = x.id ∧
      (x.revokedAt.isSome = true → x'.revokedAt.isSome = true) ∧
      (s'.Undisturbed x.id → wrongCodes x.id s.notes ≤ x.mfaFailedAttempts →
        wrongCodes x.id s'.notes ≤ x'.mfaFailedAttempts))
    (hcalls : ∀ call ∈ s.calls, call.point = .revoke → s'.Ended call.auth.sessionId)
    (hfifth : ∀ id, s'.Undisturbed id → MAX_MFA_ATTEMPTS ≤ wrongCodes id s'.notes →
      MAX_MFA_ATTEMPTS ≤ wrongCodes id s.notes ∨ s'.Ended id) : CountsInv s' := by
  refine ⟨fun id hid x' hx' hsame => ?_, fun id hid hmany => ?_⟩
  · obtain ⟨x, hx, hkey, -, hcount⟩ := hrows x' hx'
    obtain rfl : x.id = id := hkey.symm.trans hsame
    exact hcount hid (hinv.counts _ (hundisturbed _ hid) x hx rfl)
  · rcases hfifth id hid hmany with hold | hnew
    · rcases hinv.ended id (hundisturbed _ hid) hold with hrevoked | ⟨call, hcall, hpoint, hsession⟩
      · refine .inl fun x' hx' hsame => ?_
        obtain ⟨x, hx, hkey, hstays, -⟩ := hrows x' hx'
        exact hstays (hrevoked x hx (hkey.symm.trans hsame))
      · exact hsession ▸ hcalls call hcall hpoint
    · exact hnew

theorem undisturbed_of_append {notes : List MfaNote} (hnotes : s'.notes = s.notes ++ notes) {id : Uuid}
    (h : s'.Undisturbed id) : s.Undisturbed id := fun j hmem => h j (hnotes ▸ List.mem_append_left _ hmem)

/-- Neither the sessions nor their wrong codes change. -/
theorem CountsInv.neutral (hinv : CountsInv s) {x : MfaCall} {notes : List MfaNote}
    (hcall : s.calls[i]? = some ⟨auth, p⟩) (hp : p ≠ .revoke) (hsessions : s'.db.sessions = s.db.sessions)
    (hcalls : s'.calls = s.calls.set i x) (hnotes : s'.notes = s.notes ++ notes)
    (hneutral : ∀ id n, s'.Undisturbed id → notes.foldl (counted id) n = n) : CountsInv s' := by
  have hcount : ∀ id, s'.Undisturbed id → wrongCodes id s'.notes = wrongCodes id s.notes := by
    intro id hid
    rw [hnotes, wrongCodes_append, hneutral id _ hid]
  refine hinv.step (fun id => undisturbed_of_append hnotes) (fun x' hx' => ?_) (fun call hmem hpoint => ?_)
    fun id hid hmany => .inl (hcount id hid ▸ hmany)
  · exact ⟨x', hsessions ▸ hx', rfl, fun h => h, fun hid hle => (hcount _ hid).trans_le hle⟩
  · exact .inr ⟨call, hcalls ▸ revoking_stays hcall hp hmem hpoint, hpoint, rfl⟩

/-- A session has passed: its wrong codes are forgotten. -/
theorem CountsInv.passed (hinv : CountsInv s) {x : MfaCall} {notes : List MfaNote}
    (hcall : s.calls[i]? = some ⟨auth, p⟩) (hp : p ≠ .revoke)
    (hsessions : s'.db.sessions = changeWhere (fun x => x.id == auth.sessionId)
      (SessionsService.rotated env.toEnv true) s.db.sessions)
    (hcalls : s'.calls = s.calls.set i x) (hnotes : s'.notes = s.notes ++ notes)
    (hpassed : ∀ id n, notes.foldl (counted id) n = if auth.sessionId = id then 0 else n) : CountsInv s' := by
  have hcount : ∀ id, wrongCodes id s'.notes = if auth.sessionId = id then 0 else wrongCodes id s.notes := by
    intro id
    rw [hnotes, wrongCodes_append, hpassed]
  refine hinv.step (fun id => undisturbed_of_append hnotes) (fun x' hx' => ?_) (fun call hmem hpoint => ?_)
    fun id hid hmany => .inl ?_
  · rw [hsessions] at hx'
    obtain ⟨x, hx, rfl⟩ := mem_changeWhere.1 hx'
    refine ⟨x, hx, ?_⟩
    rw [hcount]
    by_cases hid : x.id = auth.sessionId
    · rw [if_pos (by simpa using hid), if_pos hid.symm]
      exact ⟨rfl, fun h => h, fun _ _ => Nat.zero_le _⟩
    · rw [if_neg (by simpa using hid), if_neg (Ne.symm hid)]
      exact ⟨rfl, fun h => h, fun _ h => h⟩
  · exact .inr ⟨call, hcalls ▸ revoking_stays hcall hp hmem hpoint, hpoint, rfl⟩
  · rw [hcount] at hmany
    split at hmany
    · exact absurd hmany (by decide)
    · exact hmany

theorem le_attempts (hinv : CountsInv s) {sessionId : Uuid} (hid : s.Undisturbed sessionId)
    (hmany : MAX_MFA_ATTEMPTS ≤ wrongCodes sessionId s.notes + 1) : MAX_MFA_ATTEMPTS ≤ attempts sessionId s.db := by
  unfold attempts
  cases hfind : s.db.sessions.find? fun x => x.id == sessionId with
  | none => exact le_rfl
  | some x =>
      have hsame : x.id = sessionId := by simpa using List.find?_some hfind
      have hcount := hinv.counts _ hid x (List.mem_of_find?_eq_some hfind) hsame
      simp only [Option.map_some, Option.getD_some]
      omega

/-- One more wrong code: the fifth makes the call revoke the session. -/
theorem CountsInv.failed (hinv : CountsInv s) (hcall : s.calls[i]? = some ⟨auth, .fail⟩)
    (hsessions : s'.db.sessions = changeWhere (fun x => x.id == auth.sessionId)
      (fun x => { x with mfaFailedAttempts := x.mfaFailedAttempts + 1 }) s.db.sessions)
    (hcalls : s'.calls = s.calls.set i ⟨auth, if MAX_MFA_ATTEMPTS ≤ attempts auth.sessionId s.db then .revoke
      else .answered (.error authErrors.invalidMfaCode)⟩)
    (hnotes : s'.notes = s.notes ++ [.wrong i auth.sessionId true]) : CountsInv s' := by
  have hcount : ∀ id, wrongCodes id s'.notes =
      if auth.sessionId = id then wrongCodes id s.notes + 1 else wrongCodes id s.notes := by
    intro id
    rw [hnotes, wrongCodes_append]
    rfl
  refine hinv.step (fun id => undisturbed_of_append hnotes) (fun x' hx' => ?_) (fun call hmem hpoint => ?_)
    fun id hid hmany => ?_
  · rw [hsessions] at hx'
    obtain ⟨x, hx, rfl⟩ := mem_changeWhere.1 hx'
    refine ⟨x, hx, ?_⟩
    rw [hcount]
    by_cases hid : x.id = auth.sessionId
    · rw [if_pos (by simpa using hid), if_pos hid.symm]
      exact ⟨rfl, fun h => h, fun _ hle => Nat.add_le_add_right hle 1⟩
    · rw [if_neg (by simpa using hid), if_neg (Ne.symm hid)]
      exact ⟨rfl, fun h => h, fun _ h => h⟩
  · exact .inr ⟨call, hcalls ▸ revoking_stays hcall (by simp) hmem hpoint, hpoint, rfl⟩
  · rw [hcount] at hmany
    split at hmany
    · rename_i hsame
      subst hsame
      rw [if_pos (le_attempts hinv (undisturbed_of_append hnotes hid) hmany)] at hcalls
      obtain ⟨hi, -⟩ := List.getElem?_eq_some_iff.1 hcall
      exact .inr (.inr ⟨⟨auth, .revoke⟩, hcalls ▸ List.mem_set hi _, rfl, rfl⟩)
    · exact .inl hmany

theorem CountsInv.revoked (hinv : CountsInv s) {reason : String} {x : MfaCall}
    (hcall : s.calls[i]? = some ⟨auth, .revoke⟩)
    (hsessions : s'.db.sessions = changeWhere (fun x => x.id == auth.sessionId && true && x.revokedAt.isNone)
      (SessionsService.revoked env.toEnv reason) s.db.sessions)
    (hcalls : s'.calls = s.calls.set i x) (hnotes : s'.notes = s.notes) : CountsInv s' := by
  refine hinv.step (fun id hid j hmem => hid j (hnotes ▸ hmem)) (fun x' hx' => ?_) (fun call hmem hpoint => ?_)
    fun id _ hmany => .inl (hnotes ▸ hmany)
  · rw [hsessions] at hx'
    obtain ⟨x, hx, rfl⟩ := mem_changeWhere.1 hx'
    refine ⟨x, hx, ?_⟩
    rw [hnotes]
    split
    · exact ⟨rfl, fun _ => rfl, fun _ h => h⟩
    · exact ⟨rfl, fun h => h, fun _ h => h⟩
  · obtain ⟨j, hj⟩ := List.mem_iff_getElem?.1 hmem
    by_cases hij : i = j
    · subst hij
      obtain rfl := Option.some.inj (hcall.symm.trans hj)
      refine .inl fun x' hx' hsame => ?_
      rw [hsessions] at hx'
      obtain ⟨x, hx, rfl⟩ := mem_changeWhere.1 hx'
      split
      · rfl
      · rename_i hmiss
        rw [if_neg hmiss] at hsame
        have hsession : (x.id == auth.sessionId) = true := by simpa using hsame
        rw [hsession, Bool.true_and, Bool.true_and] at hmiss
        exact Option.isSome_iff_ne_none.2 fun hnone => hmiss (by rw [hnone]; rfl)
    · exact .inr ⟨call, hcalls ▸ List.mem_iff_getElem?.2 ⟨j, by rw [List.getElem?_set_ne hij, hj]⟩, hpoint, rfl⟩

theorem turn_counts (hinv : CountsInv s) (hcall : s.calls[i]? = some ⟨auth, p⟩)
    (h : Turn crypto box (s.giving env) i auth env p s') : CountsInv s' := by
  cases h with
  | goes hp => exact hinv.neutral hcall hp rfl rfl (List.append_nil _).symm fun _ _ _ => rfl
  | refuses =>
      refine hinv.neutral hcall (by simp) rfl rfl rfl fun id n hid => ?_
      have hne : auth.sessionId ≠ id := by
        rintro rfl
        exact hid i (List.mem_append_right _ (List.mem_singleton.2 rfl))
      exact if_neg hne
  | stores hstored =>
      refine hinv.neutral hcall (by simp) rfl rfl rfl fun id n _ => ?_
      subst hstored
      split
      · rfl
      · rfl
  | enables => exact hinv.passed hcall (by simp) rfl rfl rfl fun id n => rfl
  | claims => exact hinv.neutral hcall (by simp) rfl rfl rfl fun _ _ _ => rfl
  | @consumes code _ =>
      refine hinv.neutral hcall (by simp) rfl rfl rfl fun id n _ => ?_
      rw [List.foldl_map]
      exact List.foldl_fixed' (fun _ => rfl) _
  | rotates => exact hinv.passed hcall (by simp) rfl rfl rfl fun id n => rfl
  | fails => exact hinv.failed hcall rfl rfl rfl
  | revokes => exact hinv.revoked hcall rfl rfl rfl
  | removes => exact hinv.neutral hcall (by simp) rfl rfl (List.append_nil _).symm fun _ _ _ => rfl

/-! ## Marks -/

/-- A code of this call was accepted. -/
def Accepts (s : MfaState) (i : ℕ) : Prop :=
  (∃ factorId step, .accepted i factorId step ∈ s.notes) ∨ ∃ codeId, .consumed i codeId ∈ s.notes

structure MarksInv (start s : MfaState) : Prop where
  passed : ∀ i id, .passed i id ∈ s.notes →
    (∃ call reply, s.calls[i]? = some call ∧ call.point = .answered (.ok reply)) ∧ s.Accepts i
  rotating : ∀ i call, s.calls[i]? = some call → call.point = .rotate → s.Accepts i
  marks : ∀ x ∈ s.db.sessions,
    (∃ x₀ ∈ start.db.sessions, x₀.id = x.id ∧ x₀.mfaVerifiedAt = x.mfaVerifiedAt) ∨ ∃ i, .passed i x.id ∈ s.notes

theorem Accepts.mono {notes : List MfaNote} (hnotes : s'.notes = s.notes ++ notes) {j : ℕ} (h : s.Accepts j) :
    s'.Accepts j := by
  rcases h with ⟨factorId, step, hmem⟩ | ⟨codeId, hmem⟩
  · exact .inl ⟨factorId, step, hnotes ▸ List.mem_append_left _ hmem⟩
  · exact .inr ⟨codeId, hnotes ▸ List.mem_append_left _ hmem⟩

/-- A call goes on; where it marks a session, a code of it was accepted and it is answered. -/
theorem MarksInv.step {start : MfaState} (hinv : MarksInv start s) {q : MfaPoint} {notes : List MfaNote}
    (hcall : s.calls[i]? = some ⟨auth, p⟩) (hp : ∀ reply, p ≠ .answered reply)
    (hcalls : s'.calls = s.calls.set i ⟨auth, q⟩) (hnotes : s'.notes = s.notes ++ notes)
    (hrotate : q = .rotate → s'.Accepts i)
    (hpassed : ∀ j id, .passed j id ∈ notes → j = i ∧ (∃ reply, q = .answered (.ok reply)) ∧ s'.Accepts i)
    (hsessions : ∀ x' ∈ s'.db.sessions, ∃ x ∈ s.db.sessions, x.id = x'.id ∧
      (x.mfaVerifiedAt = x'.mfaVerifiedAt ∨ .passed i x.id ∈ notes)) : MarksInv start s' := by
  obtain ⟨hi, -⟩ := List.getElem?_eq_some_iff.1 hcall
  refine ⟨fun j id hmem => ?_, fun j call hj hpoint => ?_, fun x' hx' => ?_⟩
  · rw [hnotes, List.mem_append] at hmem
    rcases hmem with hold | hnew
    · obtain ⟨⟨call, reply, hj, hpoint⟩, haccepts⟩ := hinv.passed j id hold
      have hij : i ≠ j := by
        rintro rfl
        obtain rfl := Option.some.inj (hcall.symm.trans hj)
        exact hp _ hpoint
      exact ⟨⟨call, reply, by rw [hcalls, List.getElem?_set_ne hij, hj], hpoint⟩, haccepts.mono hnotes⟩
    · obtain ⟨rfl, ⟨reply, rfl⟩, haccepts⟩ := hpassed j id hnew
      exact ⟨⟨_, reply, by rw [hcalls, List.getElem?_set_self hi], rfl⟩, haccepts⟩
  · rw [hcalls] at hj
    by_cases hij : i = j
    · subst hij
      rw [List.getElem?_set_self hi] at hj
      obtain rfl := Option.some.inj hj
      exact hrotate hpoint
    · rw [List.getElem?_set_ne hij] at hj
      exact (hinv.rotating j call hj hpoint).mono hnotes
  · obtain ⟨x, hx, hid, hmark⟩ := hsessions x' hx'
    rw [hnotes, ← hid]
    rcases hmark with hsame | hnew
    · rw [← hsame]
      rcases hinv.marks x hx with hstart | ⟨j, hj⟩
      · exact .inl hstart
      · exact .inr ⟨j, List.mem_append_left _ hj⟩
    · exact .inr ⟨i, List.mem_append_right _ hnew⟩

theorem turn_marks {start : MfaState} (hinv : MarksInv start s) (hcall : s.calls[i]? = some ⟨auth, p⟩)
    (hp : ∀ reply, p ≠ .answered reply) (h : Turn crypto box (s.giving env) i auth env p s') : MarksInv start s' := by
  have hsame : ∀ notes : List MfaNote, ∀ x' ∈ s.db.sessions, ∃ x ∈ s.db.sessions, x.id = x'.id ∧
      (x.mfaVerifiedAt = x'.mfaVerifiedAt ∨ .passed i x.id ∈ notes) := fun _ x hx => ⟨x, hx, rfl, .inl rfl⟩
  have hchange : ∀ (notes : List MfaNote) (hit : SessionRow → Bool) (g : SessionRow → SessionRow),
      (∀ x, hit x = true → (g x).id = x.id ∧ (x.mfaVerifiedAt = (g x).mfaVerifiedAt ∨ .passed i x.id ∈ notes)) →
      ∀ x' ∈ changeWhere hit g s.db.sessions, ∃ x ∈ s.db.sessions, x.id = x'.id ∧
        (x.mfaVerifiedAt = x'.mfaVerifiedAt ∨ .passed i x.id ∈ notes) := by
    intro notes hit g hg x' hx'
    obtain ⟨x, hx, rfl⟩ := mem_changeWhere.1 hx'
    refine ⟨x, hx, ?_⟩
    split
    · rename_i hhit
      exact ⟨(hg x hhit).1.symm, (hg x hhit).2⟩
    · exact ⟨rfl, .inl rfl⟩
  cases h with
  | @goes _ q _ _ hgoes _ =>
      refine hinv.step hcall hp rfl (List.append_nil _).symm (fun hq => ?_) (by simp) (hsame _)
      subst hq
      exact hgoes.elim
  | refuses => exact hinv.step hcall hp rfl rfl (by simp) (by simp) (hsame _)
  | stores hstored =>
      refine hinv.step hcall hp rfl rfl (by simp) (fun j id hmem => ?_) (hsame _)
      subst hstored
      split at hmem
      · cases hmem
      · simp at hmem
  | enables =>
      refine hinv.step hcall hp rfl rfl (by simp) (fun j id hmem => ?_) (hchange _ _ _ fun x hx => ⟨rfl, .inr ?_⟩)
      · obtain ⟨rfl, -⟩ : j = i ∧ id = auth.sessionId := by simpa using hmem
        exact ⟨rfl, ⟨_, rfl⟩, .inl ⟨_, _, List.mem_append_right _ List.mem_cons_self⟩⟩
      · have hid : x.id = auth.sessionId := by simpa using hx
        simp [hid]
  | claims =>
      refine hinv.step hcall hp rfl rfl (fun _ => ?_) (by simp) (hsame _)
      exact .inl ⟨_, _, List.mem_append_right _ List.mem_cons_self⟩
  | consumes hany =>
      refine hinv.step hcall hp rfl rfl (fun _ => ?_) (by simp) (hsame _)
      obtain ⟨c, hc, hhit⟩ := List.any_eq_true.1 hany
      exact .inr ⟨c.id, List.mem_append_right _ (List.mem_map.2 ⟨c, List.mem_filter.2 ⟨hc, hhit⟩, rfl⟩)⟩
  | rotates =>
      refine hinv.step hcall hp rfl rfl (by simp) (fun j id hmem => ?_) (hchange _ _ _ fun x hx => ⟨rfl, .inr ?_⟩)
      · obtain ⟨rfl, -⟩ : j = i ∧ id = auth.sessionId := by simpa using hmem
        exact ⟨rfl, ⟨_, rfl⟩, (hinv.rotating j _ hcall rfl).mono rfl⟩
      · have hid : x.id = auth.sessionId := by simpa using hx
        simp [hid]
  | fails =>
      refine hinv.step hcall hp rfl rfl (fun hq => ?_) (by simp) (hchange _ _ _ fun x _ => ⟨rfl, .inl rfl⟩)
      split at hq
      · cases hq
      · cases hq
  | revokes =>
      exact hinv.step hcall hp rfl (List.append_nil _).symm (by simp) (by simp)
        (hchange _ _ _ fun x _ => ⟨rfl, .inl rfl⟩)
  | removes => exact hinv.step hcall hp rfl (List.append_nil _).symm (by simp) (by simp) (hsame _)

/-! ## Runs -/

/-- Nobody has called yet, and the rows are as the database's indexes and the service leave them. -/
structure Started (s : MfaState) : Prop where
  calls : s.calls = []
  resealings : s.resealings = []
  notes : s.notes = []
  users : (s.db.factors.map FactorRow.userId).Nodup
  ids : (s.db.factors.map FactorRow.id).Nodup
  unused : ∀ f ∈ s.db.factors, f.confirmedAt = none → f.lastUsedTimeStep = none
  codeIds : (s.db.recoveryCodes.map RecoveryCodeRow.id).Nodup
  given : (∀ f ∈ s.db.factors, f.id ∈ s.given) ∧ ∀ c ∈ s.db.recoveryCodes, c.id ∈ s.given

structure SingleUse (start s : MfaState) : Prop where
  /-- A time step is accepted once for a factor. -/
  steps : s.acceptedSteps.Nodup
  codes : s.consumedCodes.Nodup
  ended : ∀ id, s.Undisturbed id → MAX_MFA_ATTEMPTS ≤ wrongCodes id s.notes → s.Ended id
  /-- A call that throws has marked no session. -/
  refused : ∀ i call e, s.calls[i]? = some call → call.point = .answered (.error e) → ∀ id, .passed i id ∉ s.notes
  /-- Who marks a session has had a code accepted. -/
  passed : ∀ i id, .passed i id ∈ s.notes → s.Accepts i
  marks : ∀ x ∈ s.db.sessions,
    (∃ x₀ ∈ start.db.sessions, x₀.id = x.id ∧ x₀.mfaVerifiedAt = x.mfaVerifiedAt) ∨ ∃ i, .passed i x.id ∈ s.notes

/-- The last time step of no factor decreases. -/
def Advances (s s' : MfaState) : Prop :=
  ∀ f ∈ s.db.factors, ∀ f' ∈ s'.db.factors, f'.id = f.id →
    ∀ t ∈ f.lastUsedTimeStep, ∃ t' ∈ f'.lastUsedTimeStep, t ≤ t'

structure Inv (start s : MfaState) : Prop where
  factors : FactorsInv s
  codes : CodesInv s
  counts : CountsInv s
  marks : MarksInv start s

theorem Started.inv (h : Started s) : Inv s s := by
  have hsteps : s.acceptedSteps = [] := by rw [acceptedSteps, h.notes, List.filterMap_nil]
  have hcodes : s.consumedCodes = [] := by rw [consumedCodes, h.notes, List.filterMap_nil]
  refine ⟨⟨h.users, h.ids, h.given.1, h.unused, ?_, ?_, ?_⟩, ⟨h.codeIds, h.given.2, ?_, ?_⟩, ⟨?_, ?_⟩, ⟨?_, ?_, ?_⟩⟩
  · simp [hsteps]
  · simp [hsteps]
  · simp [h.calls]
  · simp [hcodes]
  · simp [hcodes]
  · intro id _ x _ _
    rw [h.notes]
    exact Nat.zero_le _
  · intro id _ hmany
    rw [h.notes] at hmany
    exact absurd hmany (Nat.not_succ_le_zero 4)
  · simp [h.notes]
  · simp [h.calls]
  · exact fun x hx => .inl ⟨x, hx, rfl, rfl⟩

/-- An update in the background is about secrets only. -/
theorem reseal_db (r : Resealing) (d : Db) :
    ∃ factors, ((MfaService.reseal r.factorId r.userId (String.ofList r.secretCiphertext)).alone d).2 =
      { d with factors := factors } := by
  have hwlp : (MfaService.reseal r.factorId r.userId (String.ofList r.secretCiphertext)).wlp
      (fun _ d' => ∃ factors, d' = { d with factors := factors }) (fun _ => False) d := by
    rw [MfaService.reseal, Prog.wlp_bind]
    exact wlp_updateFactors ⟨_, rfl⟩
  rcases Prog.alone_cases hwlp with ⟨_, d', halone, hd'⟩ | ⟨_, _, hfalse⟩
  · rwa [halone]
  · exact hfalse.elim

theorem next_inv {start : MfaState} {e : MfaEvent} (hinv : Inv start s) (htimely : s.Timely e)
    (h : s.next crypto box e = some s') : Inv start s' := by
  have hfactors := (next_factors hinv.factors htimely h).1
  cases e with
  | begins auth request =>
      obtain rfl := Option.some.inj h
      refine ⟨hfactors, hinv.codes.same rfl (fun _ h => h) rfl, ?_, ?_⟩
      · exact hinv.counts.step (fun _ h => h) (fun x hx => ⟨x, hx, rfl, fun h => h, fun _ h => h⟩)
          (fun call hcall hpoint => .inr ⟨call, List.mem_append_left _ hcall, hpoint, rfl⟩) fun _ _ h => .inl h
      · refine ⟨fun j id hmem => ?_, fun j call hj hpoint => ?_, hinv.marks.marks⟩
        · obtain ⟨⟨call, reply, hj, hpoint⟩, haccepts⟩ := hinv.marks.passed j id hmem
          obtain ⟨hlt, -⟩ := List.getElem?_eq_some_iff.1 hj
          exact ⟨⟨call, reply, (List.getElem?_append_left hlt).trans hj, hpoint⟩, haccepts⟩
        · by_cases hlt : j < s.calls.length
          · rw [List.getElem?_append_left hlt] at hj
            exact hinv.marks.rotating j call hj hpoint
          · rw [List.getElem?_append_right (by omega)] at hj
            obtain rfl := List.mem_singleton.1 (List.mem_of_getElem? hj)
            cases request <;> cases hpoint
  | continues i env =>
      rw [next] at h
      split at h
      · rename_i hfresh
        obtain ⟨call, hcall, hcontinue⟩ := Option.bind_eq_some_iff.1 h
        have hturn := continue?_turn hcontinue
        have hanswered : ∀ reply, call.point ≠ .answered reply := by
          intro reply hpoint
          rw [hpoint] at hcontinue
          cases hcontinue
        exact ⟨hfactors, turn_codes hinv.codes hfresh.1 hfresh.2 hturn, turn_counts hinv.counts hcall hturn,
          turn_marks hinv.marks hcall hanswered hturn⟩
      · cases h
  | reseals k =>
      obtain ⟨r, -, rfl⟩ := Option.map_eq_some_iff.1 h
      obtain ⟨factors, hdb⟩ := reseal_db r s.db
      rw [hdb] at hfactors ⊢
      exact ⟨hfactors, hinv.codes.same rfl (fun _ h => h) rfl,
        hinv.counts.step (fun _ h => h) (fun x hx => ⟨x, hx, rfl, fun h => h, fun _ h => h⟩)
          (fun call hcall hpoint => .inr ⟨call, hcall, hpoint, rfl⟩) fun _ _ h => .inl h,
        ⟨hinv.marks.passed, hinv.marks.rotating, hinv.marks.marks⟩⟩

/-- In every run without a write to a factor that has changed hands, codes work once. -/
theorem codes_once {start : MfaState} (hstart : Started start) (hrun : Run (next crypto box) Timely start s) :
    SingleUse start s ∧ ∀ e s', s.Timely e → s.next crypto box e = some s' → Advances s s' := by
  have hinv : Inv start s :=
    hrun.invariant (Inv start) hstart.inv fun _ _ _ hinv htimely h => next_inv hinv htimely h
  refine ⟨⟨hinv.factors.once, hinv.codes.once, hinv.counts.ended, fun i call e hcall hpoint id hmem => ?_,
    fun i id hmem => (hinv.marks.passed i id hmem).2, hinv.marks.marks⟩, fun e s' htimely h f hf f' hf' hid => ?_⟩
  · obtain ⟨⟨call', reply, hcall', hpoint'⟩, -⟩ := hinv.marks.passed i id hmem
    obtain rfl := Option.some.inj (hcall.symm.trans hcall')
    rw [hpoint] at hpoint'
    cases hpoint'
  · obtain ⟨-, fresh, hfresh, hevolves⟩ := next_factors hinv.factors htimely h
    exact hevolves.advances hinv.factors hfresh hf hf' hid

/-! ## Two windows -/

/-- The account's sign-in in a window of its own. -/
def window (sessionId : Uuid) : AuthContext where
  sessionId := sessionId
  userId := 1
  email := "ada@lingua.test"
  displayName := "Ada"
  mfaEnabled := false
  mfaEnforced := true
  mfaVerified := false
  sessionCreatedAt := 0
  absoluteExpiresAt := 43200000
  nextStep := .mfaEnrollment

/-- The `k`-th statement, 59 seconds after the epoch; the code is that of the first time step. -/
def statement (k : ℕ) : MfaEnv where
  now := 59000
  newFactorId := 2 * k
  secret := "GEZDGNBVGY3TQOJQGEZDGNBVGY3TQOJQ".toList
  codes := [(2 * k + 1, "K7QMZ-4WHXP")]
  token := toString k
  verifyTotp secret code after :=
    if secret = "GEZDGNBVGY3TQOJQGEZDGNBVGY3TQOJQ".toList ∧ code = "287082" ∧ after.all (· < 1) then some 1 else none

def twoWindows : MfaState where
  db := {
    accounts := [{ id := 1, email := "ada@lingua.test", displayName := "Ada", mfaEnforced := true }]
    sessions := [{ id := 1, userId := 1, tokenHash := "a" }, { id := 2, userId := 1, tokenHash := "b" }] }

theorem twoWindows_started : Started twoWindows := by
  refine ⟨rfl, rfl, rfl, ?_, ?_, ?_, ?_, ?_⟩
  all_goals simp [twoWindows]

/-- The secret is stored, and a window sends the code. -/
def enrolled : List MfaEvent :=
  [.begins (window 1) .setup, .continues 0 (statement 1), .begins (window 1) (.confirm "287082"),
    .continues 1 (statement 2)]

/-- The other window sends the same code before the first one is done. -/
def sentTwice : List MfaEvent :=
  enrolled ++ [.begins (window 2) (.confirm "287082"), .continues 2 (statement 3), .continues 1 (statement 4),
    .continues 2 (statement 5)]

theorem codes_once_enrolled : ∃ s, Run (next Messaging.toyCrypto (.new Messaging.toyCrypto 1 [])) Timely twoWindows s ∧
    s.acceptedSteps = [(2, 1)] ∧ SingleUse twoWindows s := by
  have hplay : (play (next Messaging.toyCrypto (.new Messaging.toyCrypto 1 [])) (fun s e => decide (s.Timely e))
      twoWindows (enrolled ++ [.continues 1 (statement 3)])).map acceptedSteps = some [(2, 1)] := by decide +kernel
  obtain ⟨s, hs, hsteps⟩ := Option.map_eq_some_iff.1 hplay
  have hrun : Run (next Messaging.toyCrypto (.new Messaging.toyCrypto 1 [])) Timely twoWindows s :=
    (play_run hs).mono fun _ _ h => of_decide_eq_true h
  exact ⟨s, hrun, hsteps, (codes_once twoWindows_started hrun).1⟩

theorem step_accepted_twice : ∃ s, Run (next Messaging.toyCrypto (.new Messaging.toyCrypto 1 [])) (fun _ _ => True)
    twoWindows s ∧ ¬ s.acceptedSteps.Nodup := by
  have hplay : (play (next Messaging.toyCrypto (.new Messaging.toyCrypto 1 [])) (fun _ _ => true) twoWindows
      sentTwice).map acceptedSteps = some [(2, 1), (2, 1)] := by decide +kernel
  obtain ⟨s, hs, hsteps⟩ := Option.map_eq_some_iff.1 hplay
  refine ⟨s, (play_run hs).mono fun _ _ _ => trivial, ?_⟩
  rw [hsteps]
  decide

end MfaState

end Emis.Identity
