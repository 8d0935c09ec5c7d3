import Emis.Common.JsonText
import Mathlib.Algebra.GroupWithZero.Nat

/-!
# The hash of an audit row

`modules/audit/domain/hash-chain.ts`. `sha256` gives the digest of a text in hex.
-/

namespace Emis.Audit

/-- The hashed content of an audit row. -/
structure AuditContent where
  occurredAt : Str
  actorUserId : Option Str
  actorEmail : Option Str
  action : Str
  entityType : Str
  entityId : Option Str
  changes : Json
  requestId : Option Str
  ipAddress : Option Str
  userAgent : Option Str

/-- `string | null` as JSON. -/
def nullable : Option Str → Json
  | none => .null
  | some s => .str s

namespace AuditContent

def fields (content : AuditContent) : List (Str × Json) :=
  [("occurredAt".toList, .str content.occurredAt),
    ("actorUserId".toList, nullable content.actorUserId),
    ("actorEmail".toList, nullable content.actorEmail),
    ("action".toList, .str content.action),
    ("entityType".toList, .str content.entityType),
    ("entityId".toList, nullable content.entityId),
    ("changes".toList, content.changes),
    ("requestId".toList, nullable content.requestId),
    ("ipAddress".toList, nullable content.ipAddress),
    ("userAgent".toList, nullable content.userAgent)]

def json (content : AuditContent) : Json := .obj content.fields

/-- The same content with the keys of its changes in order. -/
def normal (content : AuditContent) : AuditContent := { content with changes := content.changes.normal }

end AuditContent

/-- `sha256(previous hash + canonical content)`; the first row chains from the empty text. -/
def chainHash (sha256 : Str → Str) (content : AuditContent) (prevHash : Option Str) : Str :=
  sha256 (prevHash.getD [] ++ '\n' :: canonicalJson content.json)

/-! ## What a hash tells -/

theorem nullable_normal (o : Option Str) : (nullable o).normal = nullable o := by
  cases o <;> rfl

theorem nullable_inj {o o' : Option Str} (h : nullable o = nullable o') : o = o' := by
  cases o <;> cases o' <;> simp_all [nullable]

theorem fields_keys (content content' : AuditContent) :
    content.fields.map Prod.fst = content'.fields.map Prod.fst := rfl

theorem fields_nodup (content : AuditContent) : (content.fields.map Prod.fst).Nodup := by
  have hkeys : (["occurredAt".toList, "actorUserId".toList, "actorEmail".toList, "action".toList,
    "entityType".toList, "entityId".toList, "changes".toList, "requestId".toList,
    "ipAddress".toList, "userAgent".toList] : List Str).Nodup := by decide
  exact hkeys

/-- Two lists with the same distinct keys in the same order that are permutations
of each other are the same. -/
theorem eq_of_perm_of_keys {α : Type} {fs gs : List (Str × α)} (hperm : fs.Perm gs)
    (hkeys : fs.map Prod.fst = gs.map Prod.fst) (hnodup : (fs.map Prod.fst).Nodup) : fs = gs := by
  induction fs generalizing gs with
  | nil => exact hperm.nil_eq
  | cons f fs ih =>
      cases gs with
      | nil => simp at hkeys
      | cons g gs =>
          simp only [List.map_cons, List.cons.injEq, List.nodup_cons] at hkeys hnodup
          have hmem : f ∈ g :: gs := hperm.mem_iff.1 (by simp)
          rcases List.mem_cons.1 hmem with rfl | hmem
          · rw [ih hperm.cons_inv hkeys.2 hnodup.2]
          · exact absurd (hkeys.2 ▸ List.mem_map_of_mem hmem) hnodup.1

/-- The canonical text of a content tells the content. -/
theorem content_eq_of_canonicalJson {content content' : AuditContent}
    (h : canonicalJson content.json = canonicalJson content'.json) :
    content.normal = content'.normal := by
  have hsorted := canonicalJson_eq_iff.1 h
  simp only [AuditContent.json, Json.normal, Json.obj.injEq] at hsorted
  have hkeys : ∀ c : AuditContent, (normalFields c.fields).map Prod.fst = c.fields.map Prod.fst := by
    intro c
    rw [normalFields_eq, List.map_map]
    rfl
  have hperm : ∀ c : AuditContent, (sortKeys (normalFields c.fields)).Perm (normalFields c.fields) :=
    fun c => Transactions.orderBy_perm _ _
  have hfields : normalFields content.fields = normalFields content'.fields := by
    apply eq_of_perm_of_keys ((hperm content).symm.trans (hsorted ▸ hperm content'))
    · rw [hkeys, hkeys, fields_keys]
    · rw [hkeys]
      exact fields_nodup content
  obtain ⟨⟩ := content
  obtain ⟨⟩ := content'
  simp only [AuditContent.fields, normalFields, nullable_normal, List.cons.injEq, Prod.mk.injEq,
    true_and, and_true] at hfields
  obtain ⟨h₁, h₂, h₃, h₄, h₅, h₆, h₇, h₈, h₉, h₁₀⟩ := hfields
  simp only [Json.normal, Json.str.injEq] at h₁ h₄ h₅
  simp only [AuditContent.normal, AuditContent.mk.injEq]
  exact ⟨h₁, nullable_inj h₂, nullable_inj h₃, h₄, h₅, nullable_inj h₆, h₇, nullable_inj h₈,
    nullable_inj h₉, nullable_inj h₁₀⟩

theorem canonicalJson_congr {content content' : AuditContent} (h : content.normal = content'.normal) :
    canonicalJson content.json = canonicalJson content'.json := by
  apply canonicalJson_eq_iff.2
  obtain ⟨⟩ := content
  obtain ⟨⟩ := content'
  simp only [AuditContent.normal, AuditContent.mk.injEq] at h
  obtain ⟨rfl, rfl, rfl, rfl, rfl, rfl, hchanges, rfl, rfl, rfl⟩ := h
  simp only [AuditContent.json, AuditContent.fields, Json.normal, normalFields, hchanges]

theorem chainHash_congr (sha256 : Str → Str) {content content' : AuditContent}
    (h : content.normal = content'.normal) (prevHash : Option Str) :
    chainHash sha256 content prevHash = chainHash sha256 content' prevHash := by
  rw [chainHash, canonicalJson_congr h, chainHash]

/-- Where the hash has no collisions, it tells the content and the previous hash,
but for `null` and the empty text. -/
theorem chainHash_inj {sha256 : Str → Str} (hsha : Function.Injective sha256)
    {content content' : AuditContent} {prevHash prevHash' : Option Str}
    (h : chainHash sha256 content prevHash = chainHash sha256 content' prevHash') :
    content.normal = content'.normal ∧ prevHash.getD [] = prevHash'.getD [] := by
  have htext := congrArg List.reverse (hsha h)
  simp only [List.reverse_append, List.reverse_cons, List.append_assoc, List.singleton_append] at htext
  have hline : ∀ (c : AuditContent), ∀ x ∈ (canonicalJson c.json).reverse, x ≠ '\n' := by
    rintro c x hx rfl
    exact newline_not_mem_canonicalJson _ (List.mem_reverse.1 hx)
  obtain ⟨hcontent, hprev⟩ :=
    Printing.eq_of_append_eq (hline content) (hline content') (by simp) (by simp) htext
  refine ⟨content_eq_of_canonicalJson (List.reverse_injective hcontent), ?_⟩
  exact List.reverse_injective (List.cons.inj hprev).2

/-! ## Known digests -/

/-- The digests of some texts, and a mark before every other text. -/
def tableHash (known : List (Str × Str)) (s : Str) : Str :=
  match known.find? fun e => e.1 == s with
  | some e => e.2
  | none => 'x' :: s

theorem tableHash_cases (known : List (Str × Str)) (s : Str) :
    (s, tableHash known s) ∈ known ∨ tableHash known s = 'x' :: s := by
  rw [tableHash]
  cases h : known.find? fun e => e.1 == s with
  | none => exact .inr rfl
  | some e =>
      obtain rfl : e.1 = s := by simpa using List.find?_some h
      exact .inl (List.mem_of_find?_eq_some h)

theorem tableHash_ne_nil {known : List (Str × Str)} (h : ∀ e ∈ known, e.2 ≠ []) (s : Str) :
    tableHash known s ≠ [] := by
  rcases tableHash_cases known s with hs | hs
  · exact h _ hs
  · simp [hs]

/-- Different digests that the mark does not begin are those of a hash without collisions. -/
theorem tableHash_injective {known : List (Str × Str)}
    (hdigests : ∀ e ∈ known, e.2.head? ≠ some 'x') (hnodup : ∀ e ∈ known, ∀ f ∈ known, e.2 = f.2 → e.1 = f.1) :
    Function.Injective (tableHash known) := by
  intro s t h
  rcases tableHash_cases known s with hs | hs
  · rcases tableHash_cases known t with ht | ht
    · exact hnodup _ hs _ ht h
    · exact absurd (by rw [h, ht]; rfl) (hdigests _ hs)
  · rcases tableHash_cases known t with ht | ht
    · exact absurd (by rw [← h, hs]; rfl) (hdigests _ ht)
    · simpa [hs, ht] using h

end Emis.Audit
