import Emis.Documents.StudentCardsService
import Emis.Library.Script

/-!
# Reissuing a card replaces it

Whoever inserts a card holds the student's entry in the partial unique index, and has
seen that every active card of the student is one it has revoked. A call fails there
only if a card has come in between its look for the old one and its insert.
-/

namespace Emis.Documents

open Transactions Protocol StudentCardsService

/-- A call of `issue`. -/
structure CardRequest where
  env : Env
  studentId : Uuid
  grants : List Grant

namespace CardRequest

def code (q : CardRequest) : Tx StudentCard := issue q.env q.studentId q.grants

/-- The caller may manage the student, who is active. -/
def Entitled (q : CardRequest) (d : Db) : Prop :=
  d.numbering.institution ≠ none ∧ ∃ s, (d.students.find? fun s => s.id == q.studentId) = some s ∧
    s.status = .active ∧ hasPermission q.grants .studentsManage (some { branchId := some s.branchId }) = true

/-- The call has not looked for the old card yet. -/
def Fresh (q : CardRequest) (t : Session Db Lock Error StudentCard) : Prop :=
  t = ⟨q.code, ∅, id⟩ ∨ t = ⟨replaceCard q.env q.studentId, ∅, id⟩

end CardRequest

structure CardInv (d : Db) : Prop where
  ids : (d.studentCards.map StudentCardRow.id).Nodup
  tokens : (d.studentCards.map StudentCardRow.token).Nodup
  single : ∀ c ∈ d.studentCards, ∀ c' ∈ d.studentCards, c.status = .active → c'.status = .active →
    c.studentId = c'.studentId → c.id = c'.id

/-- A card stays what it is, or is revoked by a call for its student. -/
def CardStep (S : Set Lock) (studentId : Uuid) (c c' : StudentCardRow) : Prop :=
  c' = c ∨ c.studentId = studentId ∧ c.status = .active ∧ .studentCard c.id ∈ S ∧ ∃ now, c' = revokedCard now c

/-- A new card, with its entries in the indexes. -/
structure NewCard (S : Set Lock) (studentId : Uuid) (c : StudentCardRow) : Prop where
  student : c.studentId = studentId
  id : .studentCard c.id ∈ S
  token : .cardToken c.token ∈ S
  active : .activeCard studentId ∈ S

/-- What a call for a student does. -/
structure CardGuar (S : Set Lock) (studentId : Uuid) (d d' : Db) : Prop where
  students : d'.students = d.students
  numbering : d'.numbering = d.numbering
  cards : Evolves (CardStep S studentId) (NewCard S studentId) d.studentCards d'.studentCards

variable (apart : Prop)

/-- Is the call in danger from another one for its student? -/
def CardRequest.Endangered (q : CardRequest) (d : Db) : Prop := apart ∧ q.Entitled d

def cardProtocol (q : CardRequest) : Protocol Db Lock where
  Inv := CardInv
  Guar S := CardGuar S q.studentId
  Intf S d d' := ∃ studentId, (q.Endangered apart d → studentId ≠ q.studentId) ∧ CardGuar S studentId d d'

/-- The card with this id is the student's active one. -/
def ActiveCard (d : Db) (studentId cardId : Uuid) : Prop :=
  (∃ c ∈ d.studentCards, activeOf studentId c = true ∧ c.id = cardId) ∧
    ∀ c ∈ d.studentCards, activeOf studentId c = true → c.id = cardId

/-- What the answer says of the store it leaves. -/
structure Issued (q : CardRequest) (card : StudentCard) (d d' : Db) : Prop where
  student : card.studentId = q.studentId
  active : ActiveCard d' q.studentId card.id
  others : ∀ c, c.studentId ≠ q.studentId → (c ∈ d'.studentCards ↔ c ∈ d.studentCards)

/-- A call that is let through is refused only if what it has drawn at random is taken. -/
def Refused (q : CardRequest) (_ : Error) (d : Db) : Prop :=
  q.Endangered apart d → ∃ c ∈ d.studentCards, c.id = q.env.newId ∨ c.token = q.env.token

variable {apart} {q : CardRequest} {S : Set Lock} {f : Db → Db} {d d' : Db}

@[simp] theorem activeOf_revokedCard (studentId : Uuid) (now : Instant) (c : StudentCardRow) :
    activeOf studentId (revokedCard now c) = false := by
  simp [activeOf, revokedCard]

theorem student_of_active {s : Uuid} {c : StudentCardRow} (h : activeOf s c = true) : c.studentId = s := by
  simp only [activeOf, Bool.and_eq_true, beq_iff_eq] at h
  exact h.1

@[simp] theorem CardStep.id {c c' : StudentCardRow} {s : Uuid} (h : CardStep S s c c') : c'.id = c.id := by
  rcases h with rfl | ⟨-, -, -, now, rfl⟩ <;> rfl

@[simp] theorem CardStep.token {c c' : StudentCardRow} {s : Uuid} (h : CardStep S s c c') : c'.token = c.token := by
  rcases h with rfl | ⟨-, -, -, now, rfl⟩ <;> rfl

theorem CardStep.of_active {c c' : StudentCardRow} {s t : Uuid} (h : CardStep S s c c')
    (hactive : activeOf t c' = true) : c' = c := by
  rcases h with rfl | ⟨-, -, -, now, rfl⟩
  · rfl
  · simp at hactive

/-- A call for another student touches nothing of this one. -/
theorem CardGuar.others {s t : Uuid} (h : CardGuar S s d d') (hne : t ≠ s) {c : StudentCardRow}
    (hc : c.studentId = t) : c ∈ d'.studentCards ↔ c ∈ d.studentCards := by
  constructor
  · intro hmem
    rcases h.cards.made c hmem with ⟨c₀, hc₀, rfl | ⟨hs, -, -, now, rfl⟩⟩ | hnew
    · exact hc₀
    · exact (hne (hc.symm.trans hs)).elim
    · exact (hne (hc.symm.trans hnew.student)).elim
  · intro hmem
    obtain ⟨c', hc', rfl | ⟨hs, -⟩⟩ := h.cards.kept c hmem
    · exact hc'
    · exact (hne (hc.symm.trans hs)).elim

/-! ## What the others leave -/

section Rely

variable (h : (cardProtocol apart q).Rely S d d')

include h

theorem card_students : d'.students = d.students :=
  Rely.same (χ := Db.students) (by rintro d₁ d₂ ⟨-, T, -, s, -, hguar⟩; exact hguar.students) h

theorem card_numbering : d'.numbering = d.numbering :=
  Rely.same (χ := Db.numbering) (by rintro d₁ d₂ ⟨-, T, -, s, -, hguar⟩; exact hguar.numbering) h

theorem endangered_iff : q.Endangered apart d' ↔ q.Endangered apart d := by
  simp only [CardRequest.Endangered, CardRequest.Entitled, card_students h, card_numbering h]

/-- A fact about every card that survives its revocation and holds of the cards that
somebody else may insert. -/
theorem card_rely {p : StudentCardRow → Prop}
    (hnew : ∀ T s c, Disjoint S T → NewCard T s c → p c)
    (hstep : ∀ T s c c', CardStep T s c c' → p c → p c')
    (hp : ∀ c ∈ d.studentCards, p c) : ∀ c ∈ d'.studentCards, p c := by
  refine h.stable (φ := fun d => ∀ c ∈ d.studentCards, p c) ?_ hp
  rintro d₁ d₂ ⟨-, T, hdisj, s, -, hguar⟩ hp₁ c hc
  rcases hguar.cards.made c hc with ⟨c₀, hc₀, hmove⟩ | hfresh
  · exact hstep T s c₀ c hmove (hp₁ c₀ hc₀)
  · exact hnew T s c hdisj hfresh

/-- No card is ever deleted. -/
theorem card_stays {p : StudentCardRow → Prop} (hstep : ∀ T s c c', CardStep T s c c' → p c → p c')
    (hp : ∃ c ∈ d.studentCards, p c) : ∃ c ∈ d'.studentCards, p c := by
  refine h.stable (φ := fun d => ∃ c ∈ d.studentCards, p c) ?_ hp
  rintro d₁ d₂ ⟨-, T, -, s, -, hguar⟩ ⟨c, hc, hpc⟩
  obtain ⟨c', hc', hmove⟩ := hguar.cards.kept c hc
  exact ⟨c', hc', hstep T s c c' hmove hpc⟩

/-- Nothing happens to the cards of a call that is not disturbed. -/
theorem card_own (hendangered : q.Endangered apart d) {c : StudentCardRow} (hc : c.studentId = q.studentId) :
    c ∈ d'.studentCards ↔ c ∈ d.studentCards := by
  have hboth : q.Endangered apart d' ∧ (c ∈ d'.studentCards ↔ c ∈ d.studentCards) := by
    refine h.stable (φ := fun x => q.Endangered apart x ∧ (c ∈ x.studentCards ↔ c ∈ d.studentCards)) ?_
      ⟨hendangered, Iff.rfl⟩
    rintro d₁ d₂ ⟨hi, T, hdisj, s, hne, hguar⟩ ⟨hd₁, hsame⟩
    have hstep : (cardProtocol apart q).Rely S d₁ d₂ :=
      Relation.ReflTransGen.single ⟨hi, T, hdisj, s, hne, hguar⟩
    exact ⟨(endangered_iff hstep).2 hd₁, (hguar.others (hne hd₁).symm hc).trans hsame⟩
  exact hboth.2

end Rely

theorem failed_of_refused {e : Error} (h : Refused apart q e d) :
    (cardProtocol apart q).Failed (Refused apart q) e S d := by
  intro d' hr _ hendangered
  refine card_stays hr ?_ (h ((endangered_iff hr).1 hendangered))
  rintro T s c c' hstep (hid | htoken)
  · exact .inl (hstep.id.trans hid)
  · exact .inr (hstep.token.trans htoken)

/-- A refusal of somebody who is not let through. -/
theorem failed_of_not_entitled {e : Error} (h : ¬ q.Entitled d) :
    (cardProtocol apart q).Failed (Refused apart q) e S d := failed_of_refused fun hend => (h hend.2).elim

/-! ## Revoking the old card -/

/-- What `revokeActive` leaves pending: the cards `C` are revoked. -/
def revokes (now : Instant) (studentId : Uuid) (C : List Uuid) : Db → Db :=
  revokeCards now fun c => C.contains c.id && activeOf studentId c

@[simp] theorem revokes_nil (now : Instant) (studentId : Uuid) : revokes now studentId [] = id := by
  funext d
  simp [revokes, revokeCards, changeWhere]

theorem revokes_cons (now : Instant) (studentId id : Uuid) (C : List Uuid) :
    (revokeCards now fun c => c.id == id && activeOf studentId c) ∘ revokes now studentId C =
      revokes now studentId (id :: C) := by
  funext d
  simp only [Function.comp_apply, revokes, revokeCards, changeWhere, List.map_map]
  congr 1
  refine List.map_congr_left fun c _ => ?_
  by_cases hactive : activeOf studentId c
  · by_cases hC : c.id ∈ C
    · simp [hC, hactive]
    · by_cases hid : c.id = id
      · subst hid
        simp [hC, hactive]
      · simp [hC, hid]
  · simp [hactive]

theorem any_revokes {p : StudentCardRow → Bool} {now : Instant} (hp : ∀ c, p (revokedCard now c) = p c)
    (studentId : Uuid) (C : List Uuid) (d : Db) :
    (revokes now studentId C d).studentCards.any p = d.studentCards.any p := by
  simp only [revokes, revokeCards, changeWhere, List.any_map]
  congr 1
  funext c
  simp only [Function.comp_apply]
  split
  · exact hp c
  · rfl

/-- The student has no active card left exactly if all of them are among `C`. -/
theorem any_active_revokes {now : Instant} {s : Uuid} {C : List Uuid} :
    (revokes now s C d).studentCards.any (activeOf s) = false ↔
      ∀ c ∈ d.studentCards, activeOf s c = true → c.id ∈ C := by
  rw [List.any_eq_false]
  constructor
  · intro hnone c hc hactive
    by_contra hC
    exact hnone c (mem_changeWhere.2 ⟨c, hc, by simp [hC]⟩) hactive
  · rintro hC c' hc' hactive
    obtain ⟨c, hc, rfl⟩ := mem_changeWhere.1 hc'
    split at hactive
    · simp at hactive
    · rename_i hnot
      simp [hC c hc hactive, hactive] at hnot

/-- The loop over the cards that the first look has found. -/
theorem wp_revokeLoop {X : Error → Set Lock → Db → Prop} {K : Unit → Set Lock → (Db → Db) → Db → Prop}
    (now : Instant) (rows : List StudentCardRow) {C : List Uuid} (hd : CardInv d)
    (hlocks : ∀ i ∈ C, .studentCard i ∈ S)
    (hseen : q.Endangered apart d → ∀ c ∈ d.studentCards, activeOf q.studentId c = true →
      c.id ∈ C ∨ c.id ∈ rows.map StudentCardRow.id)
    (hK : ∀ S' C' d', (cardProtocol apart q).Rely ∅ d d' → CardInv d' → (∀ i ∈ C', .studentCard i ∈ S') →
      (q.Endangered apart d' → ∀ c ∈ d'.studentCards, activeOf q.studentId c = true → c.id ∈ C') →
      K () S' (revokes now q.studentId C') d') :
    (cardProtocol apart q).wp K X (rows.forM (revokeFound now q.studentId)) S (revokes now q.studentId C) d := by
  induction rows generalizing S C d with
  | nil =>
      refine hK S C d .refl hd hlocks fun hendangered c hc hactive => ?_
      simpa using hseen hendangered c hc hactive
  | cons row rows ih =>
      change (cardProtocol apart q).wp K X (revokeFound now q.studentId row >>= fun _ =>
        rows.forM (revokeFound now q.studentId)) S _ d
      rw [wp_bind, revokeFound, wp_bind]
      have hnext : ∀ S' d', S ⊆ S' → (cardProtocol apart q).Rely S d d' → CardInv d' →
          ∀ C', (∀ i ∈ C', .studentCard i ∈ S') →
          (∀ c ∈ d'.studentCards, activeOf q.studentId c = true → c.id ∈ C ∨ c.id = row.id → c.id ∈ C') →
          (cardProtocol apart q).wp K X (rows.forM (revokeFound now q.studentId)) S' (revokes now q.studentId C') d' := by
        intro S' d' hS hr hi C' hlocks' hC'
        refine ih hi hlocks' (fun hendangered c hc hactive => ?_) fun S'' C'' d'' hr' => hK S'' C'' d'' ?_
        · have hbefore := (endangered_iff hr).1 hendangered
          have hmem := (card_own hr hbefore (student_of_active hactive)).1 hc
          rcases hseen hbefore c hmem hactive with hin | hin
          · exact .inl (hC' c hc hactive (.inl hin))
          · rcases List.mem_cons.1 hin with hrow | hrest
            · exact .inl (hC' c hc hactive (.inr hrow))
            · exact .inr hrest
        · exact (hr.anti (Set.empty_subset S)).trans hr'
      have hmissed : ∀ S' d', S ⊆ S' → (cardProtocol apart q).Rely S d d' → CardInv d' →
          ((revokes now q.studentId C d').studentCards.any fun c => c.id == row.id && activeOf q.studentId c) = false →
          (cardProtocol apart q).wp K X (rows.forM (revokeFound now q.studentId)) S' (revokes now q.studentId C) d' := by
        intro S' d' hS hr hi hmiss
        refine hnext S' d' hS hr hi C (fun i hi => hS (hlocks i hi)) fun c hc hactive hin => ?_
        rcases hin with hin | hrow
        · exact hin
        · by_contra hC
          have hkept : c ∈ (revokes now q.studentId C d').studentCards :=
            mem_changeWhere.2 ⟨c, hc, by simp [hC]⟩
          have hno := List.any_eq_false.1 hmiss c hkept
          simp [hrow, hactive] at hno
      refine wp_updateWhere_cases (fun d' hr hi hmiss => ?_) (fun d' hr hi hmiss => ?_) fun d' hr hi _ => ?_
      · exact hmissed S d' subset_rfl hr hi hmiss
      · exact hmissed _ d' (Set.subset_insert _ _) hr hi hmiss
      · rw [wp_pure, revokes_cons]
        refine hnext _ d' (Set.subset_insert _ _) hr hi (row.id :: C) (fun i hi => ?_) fun c _ _ hin => ?_
        · rcases List.mem_cons.1 hi with rfl | hin
          · exact Set.mem_insert _ _
          · exact Set.mem_insert_of_mem _ (hlocks i hin)
        · rcases hin with hin | hrow
          · exact List.mem_cons_of_mem _ hin
          · exact hrow ▸ List.mem_cons_self

theorem wp_revokeActive {X : Error → Set Lock → Db → Prop} {K : Unit → Set Lock → (Db → Db) → Db → Prop}
    (now : Instant)
    (hK : ∀ S' C d', (cardProtocol apart q).Rely ∅ d d' → CardInv d' → (∀ i ∈ C, .studentCard i ∈ S') →
      (q.Endangered apart d' → ∀ c ∈ d'.studentCards, activeOf q.studentId c = true → c.id ∈ C) →
      K () S' (revokes now q.studentId C) d') :
    (cardProtocol apart q).wp K X (revokeActive now q.studentId) ∅ id d := by
  rw [revokeActive, wp_bind, wp_get]
  intro d₁ hr₁ hi₁
  have hloop := wp_revokeLoop (S := ∅) (X := X) (K := K) now (d₁.studentCards.filter (activeOf q.studentId))
    (C := []) hi₁ (by simp) (fun _ c hc hactive => .inr (List.mem_map_of_mem (List.mem_filter.2 ⟨hc, hactive⟩)))
    fun S' C d' hr hi hlocks hseen => hK S' C d' (hr₁.trans hr) hi hlocks hseen
  rw [revokes_nil] at hloop
  exact hloop

/-! ## Inserting the new one -/

theorem wp_today {X : Error → Set Lock → Db → Prop} {K : Day → Set Lock → (Db → Db) → Db → Prop} (env : Env)
    (hf : ∀ d, (f d).numbering = d.numbering)
    (hK : ∀ day d', (cardProtocol apart q).Rely S d d' → CardInv d' → K day S f d')
    (hX : ∀ e d', (cardProtocol apart q).Rely S d d' → d'.numbering.institution = none → X e S d') :
    (cardProtocol apart q).wp K X (today env) S f d := by
  simp only [today, localDate, inSettings, Numbering.institutionRow, Prog.zoom_bind, Prog.zoom_get, Prog.zoom_expect,
    bind_map_left, wp_bind, wp_get, wp_expect, wp_pure]
  intro d₁ hr₁ hi₁
  refine ⟨fun inst _ => hK _ d₁ hr₁ hi₁, fun hnone => hX _ d₁ hr₁ ?_⟩
  rwa [hf] at hnone

/-- The entries of the new row are held, and free but for the cards `C`. -/
structure Reserved (row : StudentCardRow) (C : List Uuid) (S : Set Lock) (d : Db) : Prop where
  revoked : ∀ i ∈ C, .studentCard i ∈ S
  held : NewCard S row.studentId row
  ids : ∀ c ∈ d.studentCards, c.id ≠ row.id
  tokens : ∀ c ∈ d.studentCards, c.token ≠ row.token
  active : ∀ c ∈ d.studentCards, activeOf row.studentId c = true → c.id ∈ C

theorem rely_ids (h : (cardProtocol apart q).Rely S d d') {i : Uuid} (hlock : .studentCard i ∈ S)
    (hfree : ∀ c ∈ d.studentCards, c.id ≠ i) : ∀ c ∈ d'.studentCards, c.id ≠ i := by
  refine card_rely h (fun T s c hdisj hnew hid => ?_) (fun T s c c' hstep hc => by rwa [hstep.id]) hfree
  exact Set.disjoint_left.1 hdisj hlock (hid ▸ hnew.id)

theorem rely_tokens (h : (cardProtocol apart q).Rely S d d') {t : Str} (hlock : .cardToken t ∈ S)
    (hfree : ∀ c ∈ d.studentCards, c.token ≠ t) : ∀ c ∈ d'.studentCards, c.token ≠ t := by
  refine card_rely h (fun T s c hdisj hnew htoken => ?_) (fun T s c c' hstep hc => by rwa [hstep.token]) hfree
  exact Set.disjoint_left.1 hdisj hlock (htoken ▸ hnew.token)

theorem rely_active (h : (cardProtocol apart q).Rely S d d') {s : Uuid} {C : List Uuid} (hlock : .activeCard s ∈ S)
    (hC : ∀ c ∈ d.studentCards, activeOf s c = true → c.id ∈ C) :
    ∀ c ∈ d'.studentCards, activeOf s c = true → c.id ∈ C := by
  refine card_rely h (fun T t c hdisj hnew hactive => ?_) (fun T t c c' hstep hc hactive => ?_) hC
  · have hstudent := student_of_active hactive
    exact (Set.disjoint_left.1 hdisj hlock (hstudent ▸ hnew.student ▸ hnew.active)).elim
  · obtain rfl := hstep.of_active hactive
    exact hc hactive

theorem Reserved.later {row : StudentCardRow} {C : List Uuid} (h : Reserved row C S d)
    (hr : (cardProtocol apart q).Rely S d d') : Reserved row C S d' where
  revoked := h.revoked
  held := h.held
  ids := rely_ids hr h.held.id h.ids
  tokens := rely_tokens hr h.held.token h.tokens
  active := rely_active hr h.held.active h.active

/-- What the call publishes. -/
def insertsCard (now : Instant) (row : StudentCardRow) (C : List Uuid) (d : Db) : Db :=
  { revokes now row.studentId C d with studentCards := (revokes now row.studentId C d).studentCards ++ [row] }

/-- The insert goes through, or something that the call has drawn at random is taken. -/
theorem wp_insertCard {K : Unit → Set Lock → (Db → Db) → Db → Prop} {row : StudentCardRow} {now : Instant}
    {C : List Uuid} (hrow : ∃ day, row = newCard q.env q.studentId day) (hlocks : ∀ i ∈ C, .studentCard i ∈ S)
    (hseen : q.Endangered apart d → ∀ c ∈ d.studentCards, activeOf q.studentId c = true → c.id ∈ C)
    (hK : ∀ S' d', CardInv d' → Reserved row C S' d' → K () S' (insertsCard now row C) d') :
    (cardProtocol apart q).wp K ((cardProtocol apart q).Failed (Refused apart q)) (insertCard row) S
      (revokes now q.studentId C) d := by
  obtain ⟨day, rfl⟩ := hrow
  set row := newCard q.env q.studentId day with hrow
  simp only [wp_bind, insertCard, wp_acquire, wp_get, wp_require, wp_modify]
  intro d₃ hr₃ hi₃ d₄ hr₄ hi₄
  set S₄ := insert (Lock.studentCard row.id) S
  have hsub₄ : S ⊆ S₄ := Set.subset_insert _ _
  refine ⟨fun hid => ?_, fun htaken => failed_of_refused fun _ => ?_⟩
  · intro d₅ hr₅ hi₅ d₆ hr₆ hi₆
    set S₆ := insert (Lock.cardToken row.token) S₄
    have hsub₆ : S₄ ⊆ S₆ := Set.subset_insert _ _
    refine ⟨fun htoken => ?_, fun htaken => failed_of_refused fun _ => ?_⟩
    · intro d₇ hr₇ hi₇ d₈ hr₈ hi₈
      set S₈ := insert (Lock.activeCard row.studentId) S₆
      have hsub₈ : S₆ ⊆ S₈ := Set.subset_insert _ _
      refine ⟨fun hfree => ?_, fun htaken => failed_of_refused fun hendangered => ?_⟩
      · rw [Bool.not_eq_true', any_revokes fun _ => rfl, List.any_eq_false] at hid htoken
        have hr₆' : (cardProtocol apart q).Rely S₆ d₆ d₈ := hr₇.trans (hr₈.anti hsub₈)
        have hr₄' : (cardProtocol apart q).Rely S₄ d₄ d₈ := hr₅.trans ((hr₆.trans hr₆').anti hsub₆)
        refine hK S₈ d₈ hi₈ ⟨fun i hi => hsub₈ (hsub₆ (hsub₄ (hlocks i hi))), ⟨rfl, ?_, ?_, ?_⟩, ?_, ?_, ?_⟩
        · exact hsub₈ (hsub₆ (Set.mem_insert _ _))
        · exact hsub₈ (Set.mem_insert _ _)
        · exact Set.mem_insert _ _
        · exact rely_ids hr₄' (Set.mem_insert _ _) fun c hc => by simpa using hid c hc
        · exact rely_tokens hr₆' (Set.mem_insert _ _) fun c hc => by simpa using htoken c hc
        · have hnone : (revokes now q.studentId C d₈).studentCards.any (activeOf row.studentId) = false := by
            simpa only [Bool.not_eq_true'] using hfree
          exact any_active_revokes.1 hnone
      · -- No card of the student has come in since the look, so all that are active are revoked.
        have hr : (cardProtocol apart q).Rely S d d₈ := by
          refine hr₃.trans (((hr₄.trans hr₅).anti hsub₄).trans ?_)
          exact ((hr₆.trans hr₇).anti (hsub₄.trans hsub₆)).trans (hr₈.anti ((hsub₄.trans hsub₆).trans hsub₈))
        have hendangered₀ := (endangered_iff hr).1 hendangered
        rw [Bool.not_eq_false', ← Bool.not_eq_false] at htaken
        refine (htaken (any_active_revokes.2 fun c hc hactive => hseen hendangered₀ c ?_ hactive)).elim
        exact (card_own hr hendangered₀ (student_of_active hactive)).1 hc
    · rw [Bool.not_eq_false', any_revokes fun _ => rfl] at htaken
      obtain ⟨c, hc, htoken⟩ := List.any_eq_true.1 htaken
      exact ⟨c, hc, .inr (by simpa [hrow, newCard] using htoken)⟩
  · rw [Bool.not_eq_false', any_revokes fun _ => rfl] at htaken
    obtain ⟨c, hc, hid⟩ := List.any_eq_true.1 htaken
    exact ⟨c, hc, .inl (by simpa [hrow, newCard] using hid)⟩

/-- The cards of a store where the new one is published. -/
theorem mem_insertsCard {now : Instant} {row : StudentCardRow} {C : List Uuid} {c' : StudentCardRow} :
    c' ∈ (insertsCard now row C d).studentCards ↔
      (∃ c ∈ d.studentCards, (if C.contains c.id && activeOf row.studentId c then revokedCard now c else c) = c') ∨
        c' = row := by
  simp [insertsCard, revokes, revokeCards, mem_changeWhere]

/-- Of the student's cards only the new one is active. -/
theorem active_insertsCard {now : Instant} {row : StudentCardRow} {C : List Uuid} (h : Reserved row C S d)
    {c' : StudentCardRow} (hc' : c' ∈ (insertsCard now row C d).studentCards)
    (hactive : activeOf row.studentId c' = true) : c' = row := by
  rcases mem_insertsCard.1 hc' with ⟨c, hc, rfl⟩ | rfl
  · split at hactive
    · simp at hactive
    · rename_i hnot
      have hC := h.active c hc hactive
      simp [hC, hactive] at hnot
  · rfl

theorem inv_insertsCard {now : Instant} {row : StudentCardRow} {C : List Uuid} (hd : CardInv d)
    (h : Reserved row C S d) (hrow : row.status = .active) : CardInv (insertsCard now row C d) := by
  have hold : ∀ {κ : Type} (key : StudentCardRow → κ), (∀ c, key (revokedCard now c) = key c) →
      (d.studentCards.map key).Nodup → (∀ c ∈ d.studentCards, key c ≠ key row) →
      ((insertsCard now row C d).studentCards.map key).Nodup := by
    intro κ key hkey hnodup hfree
    refine nodup_snoc ?_ fun c' hc' => ?_
    · exact (map_changeWhere hkey).symm ▸ hnodup
    · obtain ⟨c, hc, rfl⟩ := mem_changeWhere.1 hc'
      split
      · rw [hkey]
        exact hfree c hc
      · exact hfree c hc
  have hactive : ∀ c' ∈ (insertsCard now row C d).studentCards, c'.status = .active → c' = row ∨ c' ∈ d.studentCards := by
    intro c' hc' hstatus
    rcases mem_insertsCard.1 hc' with ⟨c, hc, rfl⟩ | rfl
    · split at hstatus
      · simp [revokedCard] at hstatus
      · rename_i hnot
        rw [if_neg hnot]
        exact .inr hc
    · exact .inl rfl
  have hsame : ∀ c' ∈ (insertsCard now row C d).studentCards, c'.status = .active →
      c'.studentId = row.studentId → c' = row := fun c' hc' hstatus hstudent =>
    active_insertsCard h hc' (by simp [activeOf, hstatus, hstudent])
  refine ⟨hold _ (fun _ => rfl) hd.ids h.ids, hold _ (fun _ => rfl) hd.tokens h.tokens,
    fun c hc c' hc' hstatus hstatus' hstudent => ?_⟩
  rcases hactive c hc hstatus with rfl | hmem
  · rw [hsame c' hc' hstatus' hstudent.symm]
  rcases hactive c' hc' hstatus' with rfl | hmem'
  · rw [hsame c hc hstatus hstudent]
  exact hd.single c hmem c' hmem' hstatus hstatus' hstudent

theorem guar_insertsCard (now : Instant) {row : StudentCardRow} {C : List Uuid} (h : Reserved row C S d) :
    CardGuar S row.studentId d (insertsCard now row C d) := by
  refine ⟨rfl, rfl, (Evolves.changeWhere (fun _ => .inl rfl) fun c _ hhit => .inr ?_).add h.held⟩
  simp only [activeOf, Bool.and_eq_true, List.contains_iff_mem, beq_iff_eq] at hhit
  exact ⟨hhit.2.1, hhit.2.2, h.revoked _ hhit.1, now, rfl⟩

/-- The call has inserted the card and is about to answer. -/
theorem done_insertsCard {now : Instant} {row : StudentCardRow} {C : List Uuid} (h : Reserved row C S d)
    (hstudent : row.studentId = q.studentId) (hrow : row.status = .active) {card : StudentCard}
    (hid : card.id = row.id) (hcard : card.studentId = row.studentId) :
    (cardProtocol apart q).DoneIf (fun _ _ => True) (Issued q) card S (insertsCard now row C) d := by
  intro d' hr hi _
  have hd' := h.later hr
  have hguar := guar_insertsCard now hd'
  rw [hstudent] at hguar
  refine ⟨hguar, inv_insertsCard hi hd' hrow, hcard.trans hstudent, ⟨?_, fun c hc hactive => ?_⟩, fun c hne => ?_⟩
  · exact ⟨row, mem_insertsCard.2 (.inr rfl), by simp [activeOf, hstudent, hrow], hid.symm⟩
  · rw [← hstudent] at hactive
    rw [active_insertsCard hd' hc hactive, hid]
  · exact hguar.others hne rfl

/-! ## The whole call -/

theorem replaceCard_safe :
    Safe (cardProtocol apart) (fun _ _ _ => True) Issued (Refused apart) q
      ⟨replaceCard q.env q.studentId, ∅, id⟩ d := by
  have hdate : ∀ {S : Set Lock} {d d' : Db} {e : Error}, (cardProtocol apart q).Rely S d d' →
      d'.numbering.institution = none → (cardProtocol apart q).Failed (Refused apart q) e S d' := by
    intro S d d' e _ hnone
    exact failed_of_not_entitled fun hentitled => hentitled.1 hnone
  rw [Safe, replaceCard, wp_bind]
  refine wp_revokeActive q.env.now fun S C d₁ hr₁ hi₁ hlocks hseen => ?_
  rw [wp_bind]
  refine wp_today q.env (fun _ => rfl) (fun day d₂ hr₂ hi₂ => ?_) fun e d₂ => hdate
  rw [wp_bind]
  refine wp_insertCard ⟨day, rfl⟩ hlocks (fun hendangered c hc hactive => ?_) fun S₃ d₃ hi₃ hreserved => ?_
  · have hendangered₁ := (endangered_iff hr₂).1 hendangered
    exact hseen hendangered₁ c ((card_own hr₂ hendangered₁ (student_of_active hactive)).1 hc) hactive
  · rw [toCard, wp_bind]
    refine wp_today q.env (fun _ => rfl) (fun day' d₄ hr₄ hi₄ => ?_) fun e d₄ => hdate
    exact done_insertsCard (hreserved.later hr₄) rfl rfl rfl rfl

theorem cardIssue_safe :
    Safe (cardProtocol apart) (fun _ _ _ => True) Issued (Refused apart) q ⟨q.code, ∅, id⟩ d := by
  have hrefused : ∀ {S : Set Lock} {d : Db} {e : Error},
      (∀ s, (d.students.find? fun s => s.id == q.studentId) = some s → s.status = .active →
        hasPermission q.grants .studentsManage (some { branchId := some s.branchId }) = true → False) →
      (cardProtocol apart q).Failed (Refused apart q) e S d := by
    intro S d e hnot
    refine failed_of_not_entitled fun hentitled => ?_
    obtain ⟨-, s, hs, hactive, hgranted⟩ := hentitled
    exact hnot s hs hactive hgranted
  simp only [Safe, CardRequest.code, issue, requireExisting, assertScope, wp_bind, wp_get, wp_expect, wp_require]
  intro d₁ _ _
  refine ⟨fun s hs => ⟨fun _ => ⟨fun _ => replaceCard_safe, fun hinactive => ?_⟩, fun hdenied => ?_⟩, fun hnone => ?_⟩
  · refine hrefused fun s' hs' hactive _ => ?_
    obtain rfl : s = s' := Option.some.inj (hs.symm.trans hs')
    simp [hactive] at hinactive
  · refine hrefused fun s' hs' _ hgranted => ?_
    obtain rfl : s = s' := Option.some.inj (hs.symm.trans hs')
    simp [hgranted] at hdenied
  · refine hrefused fun s hs _ _ => ?_
    have hnone' : (d₁.students.find? fun s => s.id == q.studentId) = none := hnone
    simp [hs] at hnone'

/-! ## Every interleaving -/

/-- A request can get in the way of another one for its student. -/
def Beside (apart : Prop) (d : Db) (q q' : CardRequest) : Prop := q.Endangered apart d → q'.studentId ≠ q.studentId

theorem card_agree : Agree CardInv (cardProtocol apart) (Beside apart) where
  inv _ _ := Iff.rfl
  expects hbeside hguar := ⟨_, hbeside, hguar⟩

theorem card_sound {ι : Type} [DecidableEq ι] {start w : World ι CardRequest Db Lock Error StudentCard}
    (hidle : start.Idle) (hstart : CardInv start.db)
    (hw : Undisturbed CardRequest.code CardRequest.Fresh (Beside apart) start w) :
    SoundAmong CardInv (cardProtocol apart) (fun _ _ _ => True) Issued (Refused apart) w := by
  refine (SoundAmong.of_idle hidle hstart).undisturbed card_agree (fun q d _ => cardIssue_safe) ?_ hw
  rintro q t d (rfl | rfl) _
  · exact cardIssue_safe
  · exact replaceCard_safe

/-- Whoever scans the card's code is told that it is valid. -/
def ReportedValid (d : Db) (c : StudentCardRow) : Prop :=
  ∃ env v, ((VerificationService.verify env c.token).alone d).1 = .ok v ∧ v.kind = .studentCard ∧ v.status = .valid

theorem cardWithHolder_mem {token : Str} {found : StudentCardRow × StudentRow}
    (h : VerificationService.cardWithHolder d token = some found) :
    found.1 ∈ d.studentCards ∧ found.1.token = token := by
  have hmem := List.mem_of_head? h
  simp only [List.mem_flatMap, List.mem_filter, beq_iff_eq, List.mem_map] at hmem
  obtain ⟨c, ⟨hc, htoken⟩, s, -, rfl⟩ := hmem
  exact ⟨hc, htoken⟩

theorem active_of_reportedValid {c : StudentCardRow} (hd : CardInv d) (hc : c ∈ d.studentCards)
    (h : ReportedValid d c) : c.status = .active := by
  obtain ⟨env, v, hrun, hkind, hvalid⟩ := h
  by_contra hstatus
  have hrevoked : c.status = .revoked := by
    cases hs : c.status
    · exact (hstatus hs).elim
    · rfl
  have hnot : (VerificationService.verify env c.token).wlp
      (fun v _ => ¬ (v.kind = .studentCard ∧ v.status = .valid)) (fun _ => True) d := by
    simp only [VerificationService.verify, institution, today, localDate, inSettings, Numbering.institutionRow,
      Prog.zoom_bind, Prog.zoom_get, Prog.zoom_expect, bind_map_left, bind_assoc, Prog.wlp_bind, Prog.wlp_get,
      Prog.wlp_expect, pure_bind, implies_true, and_true]
    intro inst _ inst' _
    split
    · simp [VerificationService.ofCertificate]
    · simp only [Prog.wlp_bind, Prog.wlp_get, Prog.wlp_expect, Prog.wlp_pure, implies_true, and_true]
      intro found hfound
      obtain ⟨hmem, htoken⟩ := cardWithHolder_mem hfound
      obtain rfl : found.1 = c := eq_of_key_eq hd.tokens hmem hc htoken
      simp [VerificationService.ofCard, hrevoked]
  rcases Prog.alone_cases hnot with ⟨v', d', hanswer, hno⟩ | ⟨e, hanswer, -⟩
  · obtain rfl : v' = v := by simpa [hanswer] using hrun
    exact hno ⟨hkind, hvalid⟩
  · simp [hanswer] at hrun

/-- A card that is revoked stays as it is. -/
theorem revoked_stays {s : Uuid} (h : CardGuar S s d d') {c : StudentCardRow} (hc : c ∈ d.studentCards)
    (hrevoked : c.status = .revoked) : c ∈ d'.studentCards := by
  obtain ⟨c', hc', rfl | ⟨-, hactive, -⟩⟩ := h.cards.kept c hc
  · exact hc'
  · simp [hrevoked] at hactive

/-- The last of the cards given out for the student. -/
def lastIssued (cards : List StudentCard) (studentId : Uuid) : Option StudentCard :=
  cards.reverse.find? fun c => c.studentId == studentId

theorem keeps_issue (q : CardRequest) : q.code.Keeps Db.students := by
  have htoday : ∀ env, (today env).Keeps Db.students := fun env =>
    .bind (.zoom (ψ := id) (.bind .get fun _ => .expect _ _) fun _ _ _ => rfl) fun _ => .pure _
  refine .bind (.bind .get fun _ => .expect _ _) fun s => .bind (.require _ _) fun _ => .bind (.require _ _) fun _ => ?_
  refine .bind (.bind .get fun d => .forM _ fun row => .bind (.updateWhere _ _ fun _ => rfl) fun _ => .pure _) fun _ => ?_
  refine .bind (htoday _) fun day => .bind ?_ fun _ => .bind (htoday _) fun _ => .pure _
  refine .bind (.acquire _) fun _ => .bind .get fun _ => .bind (.require _ _) fun _ => ?_
  refine .bind (.acquire _) fun _ => .bind .get fun _ => .bind (.require _ _) fun _ => ?_
  exact .bind (.acquire _) fun _ => .bind .get fun _ => .bind (.require _ _) fun _ => .modify fun _ => rfl

/-- One valid card a student at most, never one that has been revoked, and it is the one
given out last; and a call that is let through gets its card, unless another one for the
student has been answered after it has looked for the old card. -/
theorem reissue_replaces {ι : Type} [DecidableEq ι] {start : World ι CardRequest Db Lock Error StudentCard}
    (hidle : start.Idle) (hstart : CardInv start.db) :
    (∀ w, Reachable CardRequest.code start w →
      (∀ c ∈ w.db.studentCards, ∀ c' ∈ w.db.studentCards, c.studentId = c'.studentId →
        ReportedValid w.db c → ReportedValid w.db c' → c = c') ∧
      ∀ c ∈ w.db.studentCards, c.status = .revoked → ∀ w', Reachable CardRequest.code w w' →
        c ∈ w'.db.studentCards ∧ ¬ ReportedValid w'.db c) ∧
    (∀ labels w, Run CardRequest.code start labels w → ∀ s card,
      lastIssued (committed labels) s = some card → ActiveCard w.db s card.id) ∧
    ∀ w, Undisturbed CardRequest.code CardRequest.Fresh (Beside True) start w → ∀ i q r w',
      Step CardRequest.code w (.answers i q r) w' → q.Entitled w.db →
      (∀ c ∈ w.db.studentCards, c.id ≠ q.env.newId ∧ c.token ≠ q.env.token) →
      ∃ card, r = .ok card ∧ ActiveCard w'.db q.studentId card.id := by
  have hall : ∀ w, Reachable CardRequest.code start w →
      SoundAmong CardInv (cardProtocol False) (fun _ _ _ => True) Issued (Refused False) w := fun w hw =>
    card_sound hidle hstart (hw.undisturbed CardRequest.code fun _ _ _ hend => hend.1.elim)
  refine ⟨fun w hw => ⟨fun c hc c' hc' hsame hvalid hvalid' => ?_, fun c hc hrevoked w' hw' => ?_⟩,
    fun labels w hrun s card hlast => ?_, fun w hw i q r w' hstep hentitled hunused => ?_⟩
  · have hinv := (hall w hw).inv
    have hactive := active_of_reportedValid hinv hc hvalid
    have hactive' := active_of_reportedValid hinv hc' hvalid'
    exact eq_of_key_eq hinv.ids hc hc' (hinv.single c hc c' hc' hactive hactive' hsame)
  · have hmem : c ∈ w'.db.studentCards := by
      induction hw' with
      | start => exact hc
      | @step w₁ lab w₂ hw₁ hstep ih =>
          have hsound := hall w₁ (hw.trans CardRequest.code hw₁)
          rcases hsound.change card_agree (fun _ _ _ _ _ _ => trivial) hstep with hdb | ⟨-, q, S, -, hguar⟩
          · exact hdb ▸ ih
          · exact revoked_stays hguar ih hrevoked
    refine ⟨hmem, fun hvalid => ?_⟩
    have hactive := active_of_reportedValid (hall w' (hw.trans CardRequest.code hw')).inv hmem hvalid
    simp [hrevoked] at hactive
  · have hhistory := SoundAmong.history (φ := id)
      (G := fun cards d => ∀ s card, lastIssued cards s = some card → ActiveCard d s card.id)
      card_agree (fun q => (keeps_issue q).whole) hidle hall (by simp [lastIssued])
      (fun cards q card d d' _ hgiven hissued s card' hlast' => ?_) hrun
    · exact hhistory s card hlast
    · rw [lastIssued, List.reverse_append, List.reverse_singleton, List.singleton_append, List.find?_cons] at hlast'
      by_cases hs : card.studentId = s
      · obtain rfl : card = card' := by simpa [hs] using hlast'
        exact hs ▸ hissued.student ▸ hissued.active
      · have hne : s ≠ q.studentId := fun heq => hs (hissued.student.trans heq.symm)
        rw [beq_eq_false_iff_ne.2 hs] at hlast'
        obtain ⟨⟨c, hc, hactive, hid⟩, honly⟩ := hgiven s card' hlast'
        have hsame : ∀ c, activeOf s c = true → (c ∈ d'.studentCards ↔ c ∈ d.studentCards) := fun c hactive =>
          hissued.others c (student_of_active hactive ▸ hne)
        exact ⟨⟨c, (hsame c hactive).2 hc, hactive, hid⟩, fun c hc hactive => honly c ((hsame c hactive).1 hc) hactive⟩
  · have hsound := card_sound hidle hstart hw
    cases r with
    | ok card =>
        exact ⟨card, rfl, (hsound.answer card_agree (fun _ _ => trivial) hstep).active⟩
    | error e =>
        obtain ⟨-, hrefused⟩ := hsound.error card_agree hstep
        obtain ⟨c, hc, htaken⟩ := hrefused ⟨trivial, hentitled⟩
        rcases htaken with hid | htoken
        · exact ((hunused c hc).1 hid).elim
        · exact ((hunused c hc).2 htoken).elim

/-! ## Two calls at once -/

/-- One active student without a card. -/
def enrolledStudent : Db where
  numbering := { institution := some ⟨"UTC", ⟨1, 1⟩⟩ }
  students := [⟨7, ['7'], ['A'], ['B'], none, 1, .active⟩]

theorem enrolledStudent_inv : CardInv enrolledStudent := by constructor <;> simp [enrolledStudent]

def desk : List Grant := [⟨.studentsManage, .global⟩]

def cardCall (n : ℕ) : CardRequest := ⟨{ newId := n, token := [Char.ofNat (n + 65)] }, 7, desk⟩

theorem cardCall_entitled (n : ℕ) : (cardCall n).Entitled enrolledStudent := by
  refine ⟨by simp [enrolledStudent], ⟨7, ['7'], ['A'], ['B'], none, 1, .active⟩, ?_, rfl, ?_⟩
  · simp [enrolledStudent, cardCall]
  · simp [cardCall, desk, hasPermission, scopeCovers]

def office : Duo CardRequest Db Lock Error StudentCard := Duo.idle enrolledStudent

/-- One call after the other, the second about to answer. -/
def twice : Duo CardRequest Db Lock Error StudentCard :=
  office.play CardRequest.code [.begins false (cardCall 1), .turns false 12, .begins false (cardCall 2), .turns false 15]

/-- The second card is in force, and the first is not reported valid any more. -/
theorem reissue_replaces_twice : ∃ w : World Bool CardRequest Db Lock Error StudentCard,
    Reachable CardRequest.code office.world w ∧ ActiveCard w.db 7 2 ∧
      ∀ c ∈ w.db.studentCards, c.id = 1 → ¬ ReportedValid w.db c := by
  have hidle : office.world.Idle := fun _ => rfl
  have hreplaced := reissue_replaces hidle enrolledStudent_inv
  have hguarded : Guarded CardRequest.code (Beside True) (fun _ _ _ => True) office.world twice.world := by
    refine (Duo.play_guarded (i := false) CardRequest.code _ ?_ ?_).1
    · simp [Move.client]
    · exact fun _ _ => rfl
  have hstep : Step CardRequest.code twice.world (.answers false (cardCall 2) (.ok _)) (twice.turn false).world :=
    Duo.turn_ret CardRequest.code (S := _) (f := _) rfl
  have hw : Undisturbed CardRequest.code CardRequest.Fresh (Beside True) office.world twice.world :=
    hguarded.undisturbed CardRequest.code fun _ => .inl rfl
  obtain ⟨card, hcard, hactive⟩ := hreplaced.2.2 _ hw _ _ _ _ hstep (cardCall_entitled 2) (by decide +kernel)
  have hid : card.id = 2 := by
    obtain rfl := Except.ok.inj hcard
    rfl
  have hreach : Reachable CardRequest.code office.world (twice.turn false).world :=
    .step (hw.reachable CardRequest.code) hstep
  refine ⟨_, hreach, hid ▸ hactive, fun c hc hone => ?_⟩
  have hrevoked : ∀ c ∈ (twice.turn false).world.db.studentCards, c.id = 1 → c.status = .revoked := by decide +kernel
  exact ((hreplaced.1 _ hreach).2 c hc (hrevoked c hc hone) _ .start).2

/-- A call has looked for the old card when another one for the student is answered. -/
def overtaken : Duo CardRequest Db Lock Error StudentCard :=
  office.play CardRequest.code
    [.begins false (cardCall 1), .turns false 2, .begins true (cardCall 2), .turns true 12, .turns false 7]

/-- It is let through, what it has drawn at random is unused, and it fails on the index. -/
theorem reissue_fails : CardInv office.db ∧ Reachable CardRequest.code office.world overtaken.world ∧
    (cardCall 1).Entitled overtaken.db ∧
    (∀ c ∈ overtaken.db.studentCards, c.id ≠ (cardCall 1).env.newId ∧ c.token ≠ (cardCall 1).env.token) ∧
    ∃ w', Step CardRequest.code overtaken.world
      (.answers false (cardCall 1) (.error (.database (.unique "student_cards_one_active_per_student_key")))) w' := by
  refine ⟨enrolledStudent_inv, Duo.play_reachable CardRequest.code office _, cardCall_entitled 1, by decide +kernel, ?_⟩
  exact ⟨_, Duo.turn_fail CardRequest.code (S := _) (f := _) rfl⟩

end Emis.Documents
