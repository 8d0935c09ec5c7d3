import Emis.Library.Script
import Emis.Library.Writes
import Emis.Posts.CreatePost

/-!
# Every post has its own address

The holder of the advisory lock is the only one who adds slugs. What the others do meanwhile
can only free some, so the slug that was free when it was picked is free when it is inserted.
-/

namespace Emis.Posts

open Transactions Protocol

def keys (d : Db) : List (Uuid × String) := d.posts.map fun p => (p.id, p.slug)

/-- The two unique indexes and the size of a table. -/
structure AddressInv (d : Db) : Prop where
  ids : ((keys d).map Prod.fst).Nodup
  slugs : ((keys d).map Prod.snd).Nodup
  room : (keys d).length ≤ TABLE_ROWS

def slugs : Protocol Db SlugLock where
  Inv := AddressInv
  Guar S d d' := .postSlug ∉ S → (keys d').Sublist (keys d)

theorem AddressInv.anti {d d' : Db} (h : AddressInv d) (hsub : (keys d').Sublist (keys d)) : AddressInv d' :=
  ⟨h.ids.sublist (hsub.map _), h.slugs.sublist (hsub.map _), hsub.length_le.trans h.room⟩

theorem keys_stay {S : Set SlugLock} {d d' : Db} (hlock : .postSlug ∈ S) (h : slugs.Rely S d d') :
    (keys d').Sublist (keys d) := by
  refine h.stable (φ := fun x => (keys x).Sublist (keys d)) ?_ (List.Sublist.refl _)
  rintro d₁ d₂ ⟨-, T, hdisjoint, hguar⟩ hsub
  exact (hguar (Set.disjoint_left.1 hdisjoint hlock)).trans hsub

/-! ## The requests about a post that exists -/

theorem writes_staff (call : Call) : call.code.Writes fun d d' => (keys d').Sublist (keys d) := by
  have hdecided : ∀ {α : Type} (id : Uuid) (grants : List Grant) {c : PostRow → Tx α},
      (∀ p, (c p).Writes fun d d' => (keys d').Sublist (keys d)) → (do
        let before ← PostsService.row id
        PostsService.assertMayChange before grants
        c before).Writes fun d d' => (keys d').Sublist (keys d) := fun id grants c hc =>
    .bind (.bind .get fun _ => .expect _ _) fun p => .bind (.require _ _) fun _ => hc p
  have hversioned : ∀ now id e (values : PostRow → PostRow),
      (∀ p, ((values p).id, (values p).slug) = (p.id, p.slug)) → (do
        let result ← updateWithVersion postsTable id e values
        let row ← versionedRow result postErrors.notFound
        return toPost now row : Tx Post).Writes fun d d' => (keys d').Sublist (keys d) := by
    intro now id e values hvalues
    have hkeys : ∀ d, keys (postsTable.bump id values d) = keys d := fun d =>
      map_changeWhere hvalues
    rw [← bind_assoc]
    refine .bind ((keeps_versioned postsTable hkeys).writes fun d d' hsame => ?_) fun _ => .pure _
    exact hsame ▸ List.Sublist.refl _
  refine .bind (.require _ _) fun _ => ?_
  cases call with
  | update => exact .map _ (hdecided _ _ fun _ => hversioned _ _ _ _ fun _ => rfl)
  | publish | unpublish => exact .map _ (hversioned _ _ _ _ fun _ => rfl)
  | remove =>
      refine .map _ (hdecided _ _ fun _ => .bind (.updateWhere _ _ fun d => ?_) fun _ => .pure _)
      exact List.filter_sublist.map _

/-! ## Creating a post -/

theorem mem_similar {base slug : Str} {d : Db} :
    slug ∈ PostsService.similar base d ↔ (∃ p ∈ d.posts, p.slug.toList = slug) ∧ base <+: slug := by
  rw [PostsService.similar, List.mem_filter, List.mem_map, Like.like_escape]
  refine and_congr_right fun _ => ⟨?_, ?_⟩
  · rintro ⟨rest, rfl, -⟩
    exact List.prefix_append base rest
  · rintro ⟨rest, rfl⟩
    exact ⟨rest, rfl, Like.like_percent.2 ⟨[], List.nil_suffix, rfl⟩⟩

/-- The pattern finds every slug that the loop could run into. -/
theorem IsFirstFree.unused {base slug : Str} {d : Db} (h : IsFirstFree base (PostsService.similar base d) slug) :
    ∀ p ∈ d.posts, p.slug.toList ≠ slug := by
  have hbase : base <+: slug := by
    rcases h.2 with rfl | ⟨-, n, -, -, rfl, -⟩
    · exact List.prefix_refl slug
    · exact List.prefix_append base _
  exact fun p hp heq => h.1 (mem_similar.2 ⟨⟨p, hp, heq⟩, hbase⟩)

theorem length_similar {base : Str} {d : Db} (hd : AddressInv d) :
    (PostsService.similar base d).length + 2 < 10 ^ 13 := by
  have hfilter : (PostsService.similar base d).length ≤ d.posts.length :=
    List.length_filter_le _ _ |>.trans (List.length_map _).le
  have hroom : d.posts.length ≤ TABLE_ROWS := (List.length_map _).ge.trans hd.room
  rw [TABLE_ROWS] at hroom
  omega

/-- The slug that is picked has the form and the length that the routes and the table ask for. -/
theorem slug_picked (unicode : Unicode) (title : JsString) {d : Db} (hd : AddressInv d) :
    matchesSlug (uniqueSlug (slugify unicode title) (PostsService.similar (slugify unicode title) d)) = true ∧
      slugSchema (uniqueSlug (slugify unicode title) (PostsService.similar (slugify unicode title) d)) = true := by
  obtain ⟨hshaped, hlength⟩ := slugify_shaped unicode title
  obtain ⟨hslug, hlonger⟩ := (uniqueSlug_spec _ _).1.shaped hshaped (by decide : 0 < 13) (length_similar hd)
  have hmatches := matchesSlug_iff.2 hslug.isSlug
  rw [MAX_LENGTH] at hlength
  refine ⟨hmatches, ?_⟩
  rw [slugSchema, hmatches, Bool.true_and, decide_eq_true_eq]
  omega

/-- Why a new post may be refused. -/
def Refused (e : Error) : Prop :=
  e = permissionDenied ∨ e = .database (.unique "posts_pkey") ∨ e = .database (.raised "could not extend file")

/-- The new post has an address of its own. -/
def SlugCall.Addressed : SlugCall → Reply → Db → Db → Prop
  | .create .., reply, d, d' => ∃ p, reply = .post p ∧ d'.posts = d.posts ++ [p.row] ∧
      (∀ other ∈ d.posts, other.slug ≠ p.row.slug) ∧ slugSchema p.row.slug.toList = true
  | .staff _, _, _, _ => True

def SlugCall.Blames : SlugCall → Error → Db → Prop
  | .create .., e, _ => Refused e
  | .staff _, _, _ => True

theorem addressInv_addPost {d : Db} {row : PostRow} (hd : AddressInv d) (hid : row.id ∉ (keys d).map Prod.fst)
    (hslug : row.slug ∉ (keys d).map Prod.snd) (hroom : (keys d).length < TABLE_ROWS) : AddressInv (addPost row d) := by
  have hkeys : keys (addPost row d) = keys d ++ [(row.id, row.slug)] := List.map_append
  refine ⟨?_, ?_, ?_⟩
  · rw [hkeys, List.map_append]
    exact hd.ids.append (List.nodup_singleton _) (List.disjoint_singleton.2 hid)
  · rw [hkeys, List.map_append]
    exact hd.slugs.append (List.nodup_singleton _) (List.disjoint_singleton.2 hslug)
  · rw [hkeys, List.length_append]
    exact hroom

theorem any_id {id : Uuid} {d : Db} : (d.posts.any fun p => p.id == id) = true ↔ id ∈ (keys d).map Prod.fst := by
  simp [keys, List.any_eq_true]

theorem any_slug {slug : String} {d : Db} :
    (d.posts.any fun p => p.slug == slug) = true ↔ slug ∈ (keys d).map Prod.snd := by
  simp [keys, List.any_eq_true]

theorem create_safe (unicode : Unicode) (now : Instant) (id : Uuid) (input : CreatePostValues) (d : Db) :
    slugs.wp (slugs.Done fun p d d' => d'.posts = d.posts ++ [p.row] ∧
      (∀ other ∈ d.posts, other.slug ≠ p.row.slug) ∧ slugSchema p.row.slug.toList = true)
      (slugs.Failed fun e _ => Refused e) (PostsService.create unicode now id input) ∅ (fun d => d) d := by
  simp only [PostsService.create, insertPost, wp_bind, wp_acquire, wp_get, wp_require, wp_modify, wp_pure]
  intro d₁ _ _ d₂ _ hi₂
  obtain ⟨hmatches, hschema⟩ := slug_picked unicode input.title hi₂
  set slug := uniqueSlug (slugify unicode input.title) (PostsService.similar (slugify unicode input.title) d₂)
  have hfree : String.ofList slug ∉ (keys d₂).map Prod.snd := by
    rw [keys, List.map_map, List.mem_map]
    rintro ⟨p, hp, heq⟩
    have hlist : p.slug.toList = slug := by
      rw [show p.slug = String.ofList slug from heq, String.toList_ofList]
    exact (uniqueSlug_spec _ _).1.unused p hp hlist
  have hrefused : ∀ {e S d}, Refused e → slugs.Failed (fun e _ => Refused e) e S d := fun he _ _ _ => he
  refine ⟨fun _ => ?_, fun hbad => ?_⟩
  swap
  · rw [PostsService.newPost, String.toList_ofList, hmatches] at hbad
    cases hbad
  intro d₃ hr₃ _ d₄ hr₄ _ d₅ hr₅ _
  have hlater : (keys d₅).Sublist (keys d₂) :=
    (keys_stay (by simp) hr₅).trans ((keys_stay (by simp) hr₄).trans (keys_stay (by simp) hr₃))
  have hfree₅ : String.ofList slug ∉ (keys d₅).map Prod.snd := fun hmem => hfree ((hlater.map _).subset hmem)
  refine ⟨fun hid => ⟨fun _ => ⟨fun hroom => ?_, fun _ => ?_⟩, fun hbad => ?_⟩, fun _ => ?_⟩
  · intro d₆ hr₆ hi₆
    have hkeys : (keys d₆).Sublist (keys d₅) := keys_stay (by simp) hr₆
    have hid₆ : id ∉ (keys d₆).map Prod.fst := by
      rw [Bool.not_eq_true'] at hid
      exact fun hmem => absurd (any_id.2 ((hkeys.map _).subset hmem)) (ne_true_of_eq_false hid)
    have hslug₆ : String.ofList slug ∉ (keys d₆).map Prod.snd := fun hmem => hfree₅ ((hkeys.map _).subset hmem)
    have hroom₆ : (keys d₆).length < TABLE_ROWS :=
      Nat.lt_of_le_of_lt hkeys.length_le (by simpa [keys] using hroom)
    refine ⟨fun hlock => absurd (by simp) hlock, addressInv_addPost hi₆ hid₆ hslug₆ hroom₆, rfl, ?_, ?_⟩
    · exact fun p hp heq => hslug₆ (List.mem_map.2 ⟨(p.id, p.slug), List.mem_map_of_mem hp, heq⟩)
    · rw [toPost, PostsService.newPost, String.toList_ofList]
      exact hschema
  · exact hrefused (.inr (.inr rfl))
  · rw [Bool.not_eq_false'] at hbad
    exact absurd (any_slug.1 hbad) hfree₅
  · exact hrefused (.inr (.inl rfl))

theorem code_addressed (unicode : Unicode) (q : SlugCall) (d : Db) (hd : AddressInv d) :
    slugs.wp (slugs.Done q.Addressed) (slugs.Failed q.Blames) (q.code unicode) ∅ (fun d => d) d := by
  cases q with
  | create now id input grants =>
      simp only [SlugCall.code, wp_bind, wp_require, wp_map]
      refine ⟨fun _ => ?_, fun _ _ _ _ => .inl rfl⟩
      refine wp_mono (fun p S f d hdone d' hr hi => ?_) (fun _ _ _ hfailed => hfailed)
        (create_safe unicode now id input d)
      obtain ⟨hguar, hinv, hpost⟩ := hdone d' hr hi
      exact ⟨hguar, hinv, p, rfl, hpost⟩
  | staff call =>
      have hwrites : (SlugCall.code unicode (.staff call)).Writes fun d d' => (keys d').Sublist (keys d) :=
        (writes_staff call).zoom fun _ _ h => h
      refine wp_of_writes hwrites (fun _ => List.Sublist.refl _) (fun h h' => h'.trans h) hd ?_ ?_
      · exact fun a S g d' _ hg _ _ d'' _ hi'' => ⟨fun _ => hg d'', AddressInv.anti hi'' (hg d''), trivial⟩
      · exact fun _ _ _ _ _ _ _ _ _ => trivial

/-- Every title has a slug, whatever slugs are taken there is a first one that is free, and
every new post gets one that no other post has, in the form that the public routes accept. -/
theorem posts_have_addresses (unicode : Unicode) (hplain : unicode.Plain) :
    (∀ title, IsSlug (slugify unicode title) ∧ 1 ≤ (slugify unicode title).length ∧
      (slugify unicode title).length ≤ 60 ∧
      slugify unicode (JsString.ofChars (slugify unicode title)) = slugify unicode title) ∧
    (∀ base taken, IsFirstFree base taken (uniqueSlug base taken) ∧
      ∀ rounds, taken.length < rounds → uniqueSlugIn rounds base taken = some (uniqueSlug base taken)) ∧
    ∀ {ι : Type} [DecidableEq ι] {start w w' : World ι SlugCall Db SlugLock Error Reply} {i : ι} {now : Instant}
      {id : Uuid} {input : CreatePostValues} {grants : List Grant} {r : Except Error Reply},
      start.Idle → AddressInv start.db → Reachable (SlugCall.code unicode) start w →
      Step (SlugCall.code unicode) w (.answers i (.create now id input grants) r) w' →
        match r with
        | .ok reply => ∃ p, reply = .post p ∧ w'.db.posts = w.db.posts ++ [p.row] ∧
            (∀ other ∈ w.db.posts, other.slug ≠ p.row.slug) ∧ slugSchema p.row.slug.toList = true
        | .error e => w'.db = w.db ∧ Refused e := by
  refine ⟨fun title => ?_, uniqueSlug_spec, ?_⟩
  · obtain ⟨hshaped, hlength⟩ := slugify_shaped unicode title
    refine ⟨hshaped.isSlug, ?_, hlength, slugify_of_shaped hplain hshaped hlength⟩
    obtain ⟨c, hc, -⟩ := hshaped.first
    exact List.length_pos_of_mem (List.mem_of_head? hc)
  · intro ι _ start w w' i now id input grants r hidle hstart hreach hstep
    have hsound : slugs.Sound SlugCall.Addressed SlugCall.Blames w :=
      Sound.reachable (fun q d hd => code_addressed unicode q d hd) (.of_idle hidle hstart) hreach
    cases r with
    | ok reply => exact hsound.answer hstep
    | error e => exact hsound.error hstep

/-! ## Titles in English -/

/-- What Unicode says of titles in ASCII. -/
def ascii : Unicode where
  nfkd s := s
  toLowerCase s := s.map fun u => if 0x41 ≤ u.toNat ∧ u.toNat ≤ 0x5A then u + 0x20 else u

theorem ascii_plain : ascii.Plain := by
  refine ⟨fun s _ => rfl, fun s hs => ?_⟩
  have hunits : ∀ u ∈ JsString.ofChars s, (if 0x41 ≤ u.toNat ∧ u.toNat ≤ 0x5A then u + 0x20 else u) = u := by
    intro u hu
    obtain ⟨c, hc, hu⟩ := mem_ofChars (fun c hc => toNat_le_of_isSlugChar (hs c hc)) hu
    refine if_neg fun hupper => ?_
    rw [hu] at hupper
    rcases hs c hc with hslug | rfl
    · simp only [isSlugChar, Bool.or_eq_true, Bool.and_eq_true, decide_eq_true_eq, Char.le_def,
        UInt32.le_iff_toNat_le] at hslug
      have hval : c.val.toNat = c.toNat := rfl
      have hcodes : 'a'.val.toNat = 97 ∧ '0'.val.toNat = 48 ∧ '9'.val.toNat = 57 := by decide
      omega
    · exact absurd hupper (by decide)
  exact (List.map_congr_left hunits).trans (List.map_id _)

def coordinators : List Grant := [⟨.postsManage, .global⟩]

def openDay (now : Instant) (id : Uuid) (title : String) : SlugCall :=
  .create now id { title := JsString.ofChars title.toList, body := "Come." } coordinators

/-- Two coordinators announce it at the same time. -/
def announced : Duo SlugCall Db SlugLock Error Reply :=
  (Duo.idle {}).play (SlugCall.code ascii)
    [.begins true (openDay 5 1 "Open Day"), .turns true 2, .begins false (openDay 6 2 "Open day!"), .turns false 2,
      .turns true 9, .turns false 6]

def secondPost : Post :=
  toPost 6 (PostsService.newPost 6 2 "open-day-2".toList
    { title := JsString.ofChars "Open day!".toList, body := "Come." })

/-- The second one gets the second address. -/
theorem posts_have_addresses_announced :
    ∃ w w' : World Bool SlugCall Db SlugLock Error Reply, ∃ p,
      Reachable (SlugCall.code ascii) ⟨{}, fun _ => none⟩ w ∧
      Step (SlugCall.code ascii) w (.answers false (openDay 6 2 "Open day!") (.ok (.post p))) w' ∧
      p.row.slug = "open-day-2" ∧ ∀ other ∈ w.db.posts, other.slug ≠ p.row.slug := by
  have hreach : Reachable (SlugCall.code ascii) (Duo.idle {} : Duo SlugCall Db SlugLock Error Reply).world
      announced.world := Duo.play_reachable _ _ _
  have hinv : AddressInv ({} : Db) := ⟨List.nodup_nil, List.nodup_nil, Nat.zero_le _⟩
  have hstep : Step (SlugCall.code ascii) announced.world
      (.answers false (openDay 6 2 "Open day!") (.ok (.post secondPost))) _ := Step.ret (S := _) (f := _) rfl
  obtain ⟨p, hp, -, hother, -⟩ :=
    (posts_have_addresses ascii ascii_plain).2.2 (fun _ => rfl) hinv hreach hstep
  obtain rfl := Reply.post.inj hp
  exact ⟨_, _, _, hreach, hstep, rfl, hother⟩

end Emis.Posts
