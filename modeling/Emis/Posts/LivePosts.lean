import Emis.Library.Script
import Emis.Posts.PostsService

/-!
# Who changes a live post

The permission is decided on a row that is read without a lock. What it decided
still holds when the post is written, unless somebody published the post in between.
-/

namespace Emis.Posts

open Transactions Protocol

def Call.post : Call → Uuid
  | .update _ id _ _ _ | .publish _ id _ _ _ | .unpublish _ id _ _ | .remove id _ => id

def Call.mayPublish (call : Call) : Bool := hasPermission call.grants .postsPublish

def Call.isPublish : Call → Bool
  | .publish .. => true
  | _ => false

/-- Can the request no longer write the post, once it is published at this version? -/
def Call.outdated : Call → PostRow → Prop
  | .update _ _ _ expectedVersion _, p => expectedVersion ≤ p.version
  | .remove .., _ => False
  | .publish .., _ | .unpublish .., _ => True

/-- Nobody publishes the draft of a request that may not touch it once it is live,
unless the request cannot write it any more. -/
def Call.clear (d : Db) (q q' : Call) : Prop :=
  q'.isPublish = true → q.mayPublish = true ∨ q'.post ≠ q.post ∨
    ∀ p ∈ d.posts, p.id = q.post → p.publishAt ≠ none ∨ q.outdated p

/-! ## What a request may do and expects -/

def Inv (d : Db) : Prop := (d.posts.map PostRow.id).Nodup

/-- What the request may do to a row while it holds the locks `S`. -/
structure RowStep (q : Call) (S : Set Lock) (p p' : PostRow) : Prop where
  id : p'.id = p.id
  change : p' = p ∨ p.id = q.post ∧ .post p.id ∈ S ∧ p.version < p'.version ∧
    (p'.publishAt = p.publishAt ∨ p'.publishAt = none ∨ q.isPublish = true)

/-- Rows change or are deleted, and none is new. -/
def Own (q : Call) (S : Set Lock) (d d' : Db) : Prop := ∀ p' ∈ d'.posts, ∃ p ∈ d.posts, RowStep q S p p'

def Call.view (q : Call) : Protocol Db Lock where
  Inv := Inv
  Guar := Own q
  Intf T d d' := ∃ q' : Call, q.clear d q' ∧ Own q' T d d'

theorem agree : Agree Inv Call.view Call.clear where
  inv _ _ := Iff.rfl
  expects hclear hown := ⟨_, hclear, hown⟩

/-- A row that a request which only drafts may write: a draft, or at a version that
the request does not name. -/
def Call.harmless : Call → PostRow → Prop
  | .update _ _ _ expectedVersion _, p => p.publishAt = none ∨ expectedVersion < p.version
  | .remove .., p => p.publishAt = none
  | .publish .., _ | .unpublish .., _ => True

/-- What the request knows once its permission has been decided. -/
def Call.knows (q : Call) (d : Db) : Prop :=
  q.mayPublish = true ∨ ∀ p ∈ d.posts, p.id = q.post → q.harmless p

section Rely

variable {q q' : Call} {S : Set Lock} {d d' : Db}

/-- A row stays harmless, whatever is done to it but publishing it. -/
theorem harmless_of_step {p p' : PostRow} (hstep : RowStep q' S p p') (hp : q.harmless p)
    (hclear : q'.isPublish = true → q'.post ≠ p.id ∨ p.publishAt ≠ none ∨ q.outdated p) :
    q.harmless p' := by
  rcases hstep.change with rfl | ⟨hpost, -, hversion, hpublish⟩
  · exact hp
  · have hpublish' : p'.publishAt = p.publishAt ∨ p'.publishAt = none ∨
        (p.publishAt ≠ none ∨ q.outdated p) := by
      refine hpublish.imp_right fun h => h.imp_right fun hq' => ?_
      exact (hclear hq').resolve_left fun hne => hne hpost.symm
    cases q with
    | publish | unpublish => trivial
    | update now id input e grants =>
        change p.publishAt = none ∨ e < p.version at hp
        change p'.publishAt = none ∨ e < p'.version
        rcases hp with hnone | hlt
        · rcases hpublish' with hsame | hnone' | hlive | hold
          · exact .inl (hsame.trans hnone)
          · exact .inl hnone'
          · exact (hlive hnone).elim
          · exact .inr (Nat.lt_of_le_of_lt hold hversion)
        · exact .inr (hlt.trans hversion)
    | remove id grants =>
        change p.publishAt = none at hp
        change p'.publishAt = none
        rcases hpublish' with hsame | hnone' | hlive | hfalse
        · exact hsame.trans hp
        · exact hnone'
        · exact (hlive hp).elim
        · exact hfalse.elim

theorem knows_stays (h : q.view.Rely S d d') (hd : q.knows d) : q.knows d' := by
  refine h.stable (φ := q.knows) ?_ hd
  rintro d₁ d₂ ⟨-, T, -, q', hclear, hown⟩ hknows
  rcases hknows with hmay | hknows
  · exact .inl hmay
  · by_cases hmay : q.mayPublish = true
    · exact .inl hmay
    · refine .inr fun p' hp' hid => ?_
      obtain ⟨p, hp, hstep⟩ := hown p' hp'
      have hpid : p.id = q.post := hstep.id.symm.trans hid
      refine harmless_of_step hstep (hknows p hp hpid) fun hpublish => ?_
      rcases hclear hpublish with hmay' | hne | hrows
      · exact (hmay hmay').elim
      · exact .inl (hpid ▸ hne)
      · exact .inr (hrows p hp hpid)

/-- The locked post stays at its version. -/
theorem version_stays {id : Uuid} {version : ℕ} (hlock : .post id ∈ S) (h : q.view.Rely S d d')
    (hd : ∀ p ∈ d.posts, p.id = id → p.version = version) :
    ∀ p ∈ d'.posts, p.id = id → p.version = version := by
  refine h.stable (φ := fun d => ∀ p ∈ d.posts, p.id = id → p.version = version) ?_ hd
  rintro d₁ d₂ ⟨-, T, hdisj, q', -, hown⟩ hversion p' hp' hid
  obtain ⟨p, hp, hstep⟩ := hown p' hp'
  have hpid : p.id = id := hstep.id.symm.trans hid
  rcases hstep.change with rfl | ⟨-, hheld, -, -⟩
  · exact hversion _ hp hid
  · rw [hpid] at hheld
    exact (Set.disjoint_left.1 hdisj hlock hheld).elim

end Rely

/-! ## The requests -/

section Effects

variable {q : Call} {S : Set Lock} {d d₀ : Db} {values : PostRow → PostRow}

theorem RowStep.refl (p : PostRow) : RowStep q S p p := ⟨rfl, .inl rfl⟩

theorem own_of_bump (hd : Inv d) (hlock : .post q.post ∈ S) (hid : ∀ p, (values p).id = p.id)
    (hpublish : ∀ p, (values p).publishAt = p.publishAt ∨ (values p).publishAt = none ∨
      q.isPublish = true) :
    Own q S d (postsTable.bump q.post values d) ∧ Inv (postsTable.bump q.post values d) := by
  constructor
  · intro p' hp'
    obtain ⟨p, hp, rfl⟩ := mem_changeWhere.1 hp'
    refine ⟨p, hp, ?_⟩
    split
    · rename_i hhit
      have hpid : p.id = q.post := by simpa [postsTable] using hhit
      exact ⟨hid p, .inr ⟨hpid, hpid ▸ hlock, Nat.lt_succ_self _, hpublish p⟩⟩
    · exact .refl p
  · have hids : (postsTable.bump q.post values d).posts.map PostRow.id = d.posts.map PostRow.id :=
      map_changeWhere hid
    rw [Inv, hids]
    exact hd

theorem own_of_filter (hd : Inv d) (keep : PostRow → Bool) :
    Own q S d { d with posts := d.posts.filter keep } ∧ Inv { d with posts := d.posts.filter keep } := by
  constructor
  · exact fun p hp => ⟨p, (List.mem_filter.1 hp).1, .refl p⟩
  · exact hd.sublist (List.filter_sublist.map PostRow.id)

/-- Live posts are left as they are, or the caller may publish. -/
def Call.respects (q : Call) (_ : Reply) (d d' : Db) : Prop :=
  q.mayPublish = true ∨ ∀ p ∈ d.posts, p.publishAt ≠ none → p ∈ d'.posts

theorem version_of_isAt (hd : Inv d) {id : Uuid} {version : ℕ} (h : postsTable.isAt d id version = true) :
    ∀ p ∈ d.posts, p.id = id → p.version = version := by
  obtain ⟨p, hp, hboth⟩ := List.any_eq_true.1 h
  obtain ⟨rfl, rfl⟩ : p.id = id ∧ p.version = version := by simpa [postsTable] using hboth
  intro p' hp' hid
  rw [eq_of_key_eq hd hp' hp hid]

/-- The permission is decided on the row as it is. -/
theorem wp_decided {α : Type} {K : α → Set Lock → (Db → Db) → Db → Prop} {c : PostRow → Tx α}
    (hK : ∀ d' p, q.view.Rely S d d' → Inv d' →
      (q.mayPublish = true ∨ ∀ p' ∈ d'.posts, p'.id = q.post → p'.publishAt = none) →
        q.view.wp K Anyway (c p) S id d') :
    q.view.wp K Anyway (do
      let before ← PostsService.row q.post
      PostsService.assertMayChange before q.grants
      c before) S id d := by
  simp only [PostsService.row, PostsService.assertMayChange, wp_bind, wp_get, wp_expect, wp_require,
    implies_true, and_true]
  intro d₁ hr₁ hi₁ p hp hmay
  refine hK d₁ p hr₁ hi₁ ?_
  rw [Bool.or_eq_true] at hmay
  refine hmay.symm.imp_right fun hnone p' hp' hid => ?_
  have hpid : p.id = q.post := by simpa [postsTable] using List.find?_some hp
  rw [eq_of_key_eq hi₁ hp' (List.mem_of_find?_eq_some hp) (hid.trans hpid.symm)]
  simpa using hnone

theorem wp_versionedChange {now : Instant} {expectedVersion : ℕ} (hid : ∀ p, (values p).id = p.id)
    (hpublish : ∀ p, (values p).publishAt = p.publishAt ∨ (values p).publishAt = none ∨
      q.isPublish = true)
    (hknows : q.mayPublish = true ∨ ∃ d₀, q.view.Rely ∅ d₀ d ∧ q.knows d₀ ∧
      ∀ p, q.harmless p → p.version = expectedVersion → p.publishAt = none) :
    q.view.wp (fun p => q.view.Done q.respects (.post p)) Anyway (do
      let result ← updateWithVersion postsTable q.post expectedVersion values
      let row ← versionedRow result postErrors.notFound
      return toPost now row) ∅ id d := by
  simp only [wp_bind]
  refine wp_versioned postsTable fun d₁ d₂ row hr₁ hi₁ hat hr₂ _ _ d' hr' hi' => ?_
  have hlock : Lock.post q.post ∈ insert (Lock.post q.post) ∅ := Set.mem_insert _ _
  obtain ⟨hown, hinv⟩ : Own q _ d' (postsTable.bump q.post values d') ∧
      Inv (postsTable.bump q.post values d') := own_of_bump hi' hlock hid hpublish
  refine ⟨hown, hinv, ?_⟩
  rcases hknows with hmay | ⟨d₀, hr₀, hknows, hdraft⟩
  · exact .inl hmay
  · have hversion := version_stays hlock (hr₂.trans hr') (version_of_isAt hi₁ hat)
    have hr : q.view.Rely ∅ d₀ d' := hr₀.trans (hr₁.trans ((hr₂.trans hr').anti (Set.empty_subset _)))
    refine (knows_stays hr hknows).imp_right fun hharmless p hp hlive => ?_
    refine mem_changeWhere.2 ⟨p, hp, if_neg ?_⟩
    intro hhit
    have hpid : p.id = q.post := by simpa [postsTable] using hhit
    exact hlive (hdraft p (hharmless p hp hpid) (hversion p hp hpid))

theorem code_respects (q : Call) (d : Db) :
    q.view.wp (q.view.Done q.respects) (q.view.Failed fun _ _ => True) q.code ∅ id d := by
  rw [Call.code, wp_bind, wp_require]
  refine ⟨fun hpermission => ?_, fun _ _ _ _ => trivial⟩
  cases q with
  | update now id input e grants =>
      rw [Call.service, wp_map]
      refine wp_mono (X := Anyway) (fun _ _ _ _ h => h) (fun _ _ _ _ _ _ _ => trivial) ?_
      refine wp_decided (q := .update now id input e grants) fun d₁ p hr₁ hi₁ hdecided => ?_
      refine wp_versionedChange (fun _ => rfl) (fun _ => .inl rfl) ?_
      refine hdecided.imp_right fun hnone => ⟨d₁, .refl, .inr fun p hp hid => .inl (hnone p hp hid), ?_⟩
      rintro p (hnone | hlt) hversion
      · exact hnone
      · exact absurd hversion hlt.ne'
  | publish now id requested e grants =>
      rw [Call.service, wp_map]
      refine wp_mono (X := Anyway) (fun _ _ _ _ h => h) (fun _ _ _ _ _ _ _ => trivial) ?_
      exact wp_versionedChange (q := .publish now id requested e grants) (fun _ => rfl)
        (fun _ => .inr (.inr rfl)) (.inl hpermission)
  | unpublish now id e grants =>
      rw [Call.service, wp_map]
      refine wp_mono (X := Anyway) (fun _ _ _ _ h => h) (fun _ _ _ _ _ _ _ => trivial) ?_
      exact wp_versionedChange (q := .unpublish now id e grants) (fun _ => rfl)
        (fun _ => .inr (.inl rfl)) (.inl hpermission)
  | remove id grants =>
      rw [Call.service, wp_map]
      refine wp_mono (X := Anyway) (fun _ _ _ _ h => h) (fun _ _ _ _ _ _ _ => trivial) ?_
      refine wp_decided (q := .remove id grants) fun d₁ p hr₁ hi₁ hdecided => ?_
      rw [wp_bind]
      refine wp_updateWhere (fun S' d' _ _ _ d'' _ hi'' => ?_) fun d' hr' hi' _ d'' hr'' hi'' => ?_
      · exact ⟨fun p hp => ⟨p, hp, .refl p⟩, hi'', .inr fun _ hp _ => hp⟩
      · obtain ⟨hown, hinv⟩ := own_of_filter (q := .remove id grants) (S := insert (Lock.post id) ∅) hi''
          fun p => p.id != id
        refine ⟨hown, hinv, ?_⟩
        have hr := hr'.trans (hr''.anti (Set.empty_subset _))
        refine (knows_stays hr hdecided).imp_right fun hdraft p hp hlive => ?_
        have hpid : p.id ≠ id := fun hpid => hlive (hdraft p hp hpid)
        exact List.mem_filter.2 ⟨hp, by simpa using hpid⟩

theorem code_keeps (q : Call) : q.code.Keeps fun _ : Db => () := by
  have hdecided : ∀ {α : Type} (id : Uuid) (grants : List Grant) {c : PostRow → Tx α},
      (∀ p, (c p).Keeps fun _ : Db => ()) → (do
        let before ← PostsService.row id
        PostsService.assertMayChange before grants
        c before).Keeps fun _ : Db => () := fun id grants c hc =>
    .bind (.bind .get fun _ => .expect _ _) fun p => .bind (.require _ _) fun _ => hc p
  have hversioned : ∀ now id e (values : PostRow → PostRow), (do
      let result ← updateWithVersion postsTable id e values
      let row ← versionedRow result postErrors.notFound
      return toPost now row : Tx Post).Keeps fun _ : Db => () := by
    intro now id e values
    rw [← bind_assoc]
    exact .bind (keeps_versioned postsTable fun _ => rfl) fun _ => .pure _
  refine .bind (.require _ _) fun _ => ?_
  cases q with
  | update => exact .map _ (hdecided _ _ fun _ => hversioned _ _ _ _)
  | publish | unpublish => exact .map _ (hversioned _ _ _ _)
  | remove =>
      exact .map _ (hdecided _ _ fun _ => .bind (.updateWhere _ _ fun _ => rfl) fun _ => .pure _)

end Effects

/-! ## Runs -/

/-- Where nobody publishes the draft of a request that was let through because it is
one, nobody without the permission to publish changes or removes a post that is live
or scheduled. -/
theorem live_posts_guarded {ι : Type} [DecidableEq ι] {start w w' : World ι Call Db Lock Error Reply}
    {lab : Label ι Call Error Reply} (hidle : start.Idle) (hstart : Inv start.db)
    (hw : Guarded Call.code Call.clear (fun _ _ _ => True) start w) (hstep : Step Call.code w lab w') :
    w'.db = w.db ∨ ∃ i q a, lab = .answers i q (.ok a) ∧
      (q.mayPublish = true ∨ ∀ p ∈ w.db.posts, p.publishAt ≠ none → p ∈ w'.db.posts) := by
  have hcode : ∀ (q : Call) d, Inv d → Safe Call.view (fun _ _ _ => True) Call.respects
      (fun _ _ _ => True) q ⟨q.code, ∅, id⟩ d := fun q d _ =>
    wp_mono (fun _ _ _ _ hdone d' hr hi _ => hdone d' hr hi) (fun _ _ _ h => h) (code_respects q d)
  have hsound : SoundAmong Inv Call.view (fun _ _ _ => True) Call.respects (fun _ _ _ => True) w :=
    (SoundAmong.of_idle hidle hstart).guarded agree hcode hw
  have hwhole : ∀ q : Call, q.code.Whole (id : Db → Db) := fun q => (code_keeps q).whole
  have hone := Reachable.oneTransaction _ hwhole hidle hw.permitted.reachable
  rcases (hstep.oneTransaction _ hwhole hone).2 with hsame | ⟨i, q, a, rfl⟩
  · exact .inl hsame
  · exact .inr ⟨i, q, a, rfl, hsound.answer agree (fun _ _ => trivial) hstep⟩

/-! ## A newsroom -/

def draft : Db := { posts := [{ id := 1, slug := "open-day", title := "Open day", body := "Come." }] }

def coordinator : List Grant := [⟨.postsManage, .global⟩]

def admin : List Grant := [⟨.postsManage, .global⟩, ⟨.postsPublish, .global⟩]

def publication : Call := .publish 9 1 none 1 admin

/-- The draft is published, and a coordinator then fails to delete it. -/
theorem live_posts_guarded_published :
    ∃ w : World Unit Call Db Lock Error Reply, w.db.posts.map PostRow.publishAt = [some 9] ∧
      ∀ lab w', Step Call.code w lab w' → w'.db = w.db ∨ ∃ i q a, lab = .answers i q (.ok a) ∧
        (q.mayPublish = true ∨ ∀ p ∈ w.db.posts, p.publishAt ≠ none → p ∈ w'.db.posts) := by
  have hserved : ∀ d (q : Call), q.code.wlp (fun _ _ => True) (fun _ => True) d := fun d q =>
    (code_keeps q).wlp (fun _ _ _ => trivial) fun _ => trivial
  have hrun : Admitted Call.code (fun _ _ => ∀ (_ : Set Lock) (_ : Db), True)
      (⟨draft, fun _ => none⟩ : World Unit Call Db Lock Error Reply) _ :=
    ((Admitted.start.serve Call.code () publication (fun _ _ => trivial) (hserved _ _)).serve
      Call.code () (.remove 1 coordinator) (fun _ _ => trivial) (hserved _ _))
  have hguarded : Guarded Call.code Call.clear _ _ _ :=
    (hrun.permitted Call.code fun _ => rfl).guarded Call.code
  have hinv : Inv draft := List.nodup_singleton _
  refine ⟨_, ?_, fun lab w' hstep => live_posts_guarded (fun _ => rfl) hinv hguarded hstep⟩
  decide

/-- A coordinator's deletion is let through for a draft, the draft is published, and
the live post is deleted. -/
theorem live_post_deleted :
    ∃ w w' : World Bool Call Db Lock Error Reply, Reachable Call.code ⟨draft, fun _ => none⟩ w ∧
      Step Call.code w (.answers true (.remove 1 coordinator) (.ok .removed)) w' ∧
      w.db.posts.map PostRow.publishAt = [some 9] ∧ w'.db.posts = [] ∧
      hasPermission coordinator .postsPublish = false := by
  set race : Duo Call Db Lock Error Reply := (Duo.idle draft).play Call.code
    [.begins true (.remove 1 coordinator), .turns true 1, .begins false publication, .turns false 9,
      .turns true 4] with hrace
  have hreach := Duo.play_reachable Call.code (Duo.idle draft : Duo Call Db Lock Error Reply)
    [.begins true (.remove 1 coordinator), .turns true 1, .begins false publication, .turns false 9,
      .turns true 4]
  refine ⟨race.world, _, hreach, Step.ret (S := _) (f := _) rfl, ?_, ?_, ?_⟩
  · decide +kernel
  · decide +kernel
  · decide

end Emis.Posts
