import Emis.Common.JsString
import Emis.Library.Url

/-!
# Redirects after signing in

`lib/redirects.ts` of the portal, and where a browser goes from there.
-/

namespace Emis.Portal

inductive AuthNextStep where
  | none
  | mfa
  | mfaEnrollment
deriving DecidableEq

def SLASH : JsString := JsString.ofChars ['/']

/-- What `safeNextPath` lets pass: a slash that no other slash follows. -/
def isSitePath (next : JsString) : Bool :=
  (JsString.ofChars ['/']).isPrefixOf next && !(JsString.ofChars ['/', '/']).isPrefixOf next &&
    !(JsString.ofChars ['/', '\\']).isPrefixOf next

/-- `null` and the empty string count as no path. -/
def safeNextPath : Option JsString → JsString
  | none => SLASH
  | some next => if isSitePath next then next else SLASH

/-- It throws at a surrogate that stands alone. -/
def encodeURIComponent (s : JsString) : Option Str :=
  if s.isWellFormed then some (Url.encodeComponent s.toWellFormed) else none

def NEXT : Str := ['n', 'e', 'x', 't']

def VERIFY : Str := ['/', 'l', 'o', 'g', 'i', 'n', '/', 'v', 'e', 'r', 'i', 'f', 'y']

def SETUP_MFA : Str := ['/', 'l', 'o', 'g', 'i', 'n', '/', 's', 'e', 't', 'u', 'p', '-', 'm', 'f', 'a']

def pathForNextStep (step : AuthNextStep) (next : JsString) : Option JsString := do
  let query ← if next = SLASH then some [] else
    (encodeURIComponent next).map fun text => '?' :: (NEXT ++ '=' :: text)
  match step with
  | .mfa => return JsString.ofChars (VERIFY ++ query)
  | .mfaEnrollment => return JsString.ofChars (SETUP_MFA ++ query)
  | .none => return next

/-- `searchParams.get('next')` on the page of a path. -/
def nextOf (path : JsString) : Option JsString :=
  (Url.parameter NEXT (Url.query path.toWellFormed)).map JsString.ofChars

/-! ## The path comes back -/

theorem isUnreserved_next : ∀ c ∈ NEXT, Url.isUnreserved c = true := by decide

/-- A query with a single parameter after one of the two pages. -/
theorem nextOf_encoded {page : Str} (hquestion : '?' ∉ page) (hhash : '#' ∉ page) {next : JsString}
    (hnext : next.isWellFormed = true) :
    nextOf (JsString.ofChars (page ++ '?' :: (NEXT ++ '=' :: Url.encodeComponent next.toWellFormed))) = some next := by
  have htext : '#' ∉ NEXT ++ '=' :: Url.encodeComponent next.toWellFormed := by
    intro hmem
    rcases List.mem_append.1 hmem with hmem | hmem
    · exact absurd hmem (by decide)
    rcases List.mem_cons.1 hmem with hmem | hmem
    · exact absurd hmem (by decide)
    · exact Url.not_mem_encodeComponent (by decide) (by decide) hmem
  rw [nextOf, JsString.toWellFormed_ofChars, Url.query_cons hquestion hhash htext,
    Url.parameter_encodeComponent isUnreserved_next, Option.map_some, JsString.ofChars_toWellFormed hnext]

theorem safeNextPath_of_isSitePath {next : JsString} (h : isSitePath next = true) : safeNextPath (some next) = next :=
  if_pos h

/-- The parameter of the page for a pending step is the path, unless the path cannot be written. -/
theorem nextOf_pathForNextStep {step : AuthNextStep} (hstep : step ≠ .none) (next : JsString) :
    (∃ path, pathForNextStep step next = some path ∧ safeNextPath (nextOf path) = safeNextPath (some next)) ↔
      next.isWellFormed = true := by
  by_cases hslash : next = SLASH
  · subst hslash
    refine iff_of_true ?_ (by decide)
    cases step with
    | none => exact absurd rfl hstep
    | mfa => exact ⟨JsString.ofChars VERIFY, by decide, by decide⟩
    | mfaEnrollment => exact ⟨JsString.ofChars SETUP_MFA, by decide, by decide⟩
  constructor
  · rintro ⟨path, hpath, -⟩
    by_contra hlone
    rw [pathForNextStep, if_neg hslash, encodeURIComponent, if_neg hlone] at hpath
    cases hpath
  · intro hwell
    have hquery : (encodeURIComponent next).map (fun text => '?' :: (NEXT ++ '=' :: text)) =
        some ('?' :: (NEXT ++ '=' :: Url.encodeComponent next.toWellFormed)) := by
      rw [encodeURIComponent, if_pos hwell, Option.map_some]
    cases step with
    | none => exact absurd rfl hstep
    | mfa =>
        refine ⟨_, by rw [pathForNextStep, if_neg hslash, hquery]; rfl, ?_⟩
        rw [nextOf_encoded (by decide) (by decide) hwell]
    | mfaEnrollment =>
        refine ⟨_, by rw [pathForNextStep, if_neg hslash, hquery]; rfl, ?_⟩
        rw [nextOf_encoded (by decide) (by decide) hwell]

/-! ## Where the browser goes -/

section Browser

variable {H : Type} (parseHost : Str → Option H) (portal : Url.Origin H)

/-- Without its tabs and line breaks the path has an authority of its own, and not the portal's. -/
def Leaves (next : JsString) : Prop :=
  ∃ authority, Url.networkPath (Url.clean next.toWellFormed) = some authority ∧
    Url.parseAuthority parseHost portal.https authority ≠ some portal

theorem resolve_eq_iff (next : JsString) :
    Url.resolve parseHost portal next.toWellFormed = some portal ↔ ¬ Leaves parseHost portal next := by
  unfold Url.resolve Leaves
  cases h : Url.networkPath (Url.clean next.toWellFormed) with
  | none => simp
  | some authority => simp

/-- The redirect stays on the site, and its path survives a pending step, exactly when the path that
is let through neither leaves by itself nor has a surrogate that stands alone. -/
theorem safeNextPath_stays_iff (next : JsString) :
    (Url.resolve parseHost portal (safeNextPath (some next)).toWellFormed = some portal ∧
      ∀ step, step ≠ AuthNextStep.none → ∃ path, pathForNextStep step (safeNextPath (some next)) = some path ∧
        safeNextPath (nextOf path) = safeNextPath (some next)) ↔
    (isSitePath next = true → ¬ Leaves parseHost portal next ∧ next.isWellFormed = true) := by
  have hback : ∀ p, isSitePath p = true → ((∀ step, step ≠ AuthNextStep.none → ∃ path,
      pathForNextStep step p = some path ∧ safeNextPath (nextOf path) = p) ↔ p.isWellFormed = true) := by
    intro p hp
    constructor
    · intro h
      obtain ⟨path, hpath, hnext⟩ := h .mfa (by decide)
      exact (nextOf_pathForNextStep (by decide) p).1 ⟨path, hpath, hnext.trans (safeNextPath_of_isSitePath hp).symm⟩
    · intro hwell step hstep
      obtain ⟨path, hpath, hnext⟩ := (nextOf_pathForNextStep hstep p).2 hwell
      exact ⟨path, hpath, hnext.trans (safeNextPath_of_isSitePath hp)⟩
  have hpath : isSitePath (safeNextPath (some next)) = true := by
    by_cases h : isSitePath next = true
    · rw [safeNextPath_of_isSitePath h, h]
    · rw [safeNextPath, if_neg h]
      decide
  rw [hback _ hpath, resolve_eq_iff]
  by_cases h : isSitePath next = true
  · rw [safeNextPath_of_isSitePath h]
    exact ⟨fun hboth _ => hboth, fun hboth => hboth h⟩
  · have hslash : safeNextPath (some next) = SLASH := if_neg h
    rw [hslash]
    refine iff_of_true ⟨?_, by decide⟩ fun hsite => absurd hsite h
    rintro ⟨authority, hauthority, -⟩
    have hnone : Url.networkPath (Url.clean SLASH.toWellFormed) = none := by decide
    rw [hnone] at hauthority
    cases hauthority

end Browser

/-- The names of hosts that stand for themselves. -/
def asciiDomain (host : Str) : Option Str :=
  if host.all fun c => c.isLower || c.isDigit || c == '.' || c == '-' then some host else none

/-- `/⇥/evil.test` goes to `https://evil.test`. -/
theorem safeNextPath_leaves :
    Url.resolve asciiDomain ⟨true, ['e', 'm', 'i', 's', '.', 't', 'e', 's', 't'], none⟩
      (safeNextPath (some (JsString.ofChars
        ['/', '\t', '/', 'e', 'v', 'i', 'l', '.', 't', 'e', 's', 't']))).toWellFormed ≠
      some ⟨true, ['e', 'm', 'i', 's', '.', 't', 'e', 's', 't'], none⟩ := by
  decide

end Emis.Portal
