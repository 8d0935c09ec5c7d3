import Emis.Audit.Chain
import Emis.Library.Rules
import Emis.Library.Script

/-!
# Whatever was recorded verifies

Any number of transactions record entries side by side. The advisory lock is held
from the first entry of a transaction to its end, so the rows of the transactions
that commit make one chain, with gaps in its numbers where others rolled back.
-/

namespace Emis.Audit

open Transactions Protocol

section Transaction

variable {σ M : Type} (part : Part σ M Db Lock) (sha256 : Str → Str) (jsonb : Json → Json)

/-- A transaction that records any entries and does anything else in between, but
for touching the audit trail; it answers how many entries it has recorded. -/
inductive Recording : Prog σ M Error ℕ → Prop
  | done : Recording (pure 0)
  | rollback (e) : Recording (Prog.throw e)
  | record (env entry) (k : Prog σ M Error ℕ) : Recording k →
      Recording ((AuditService.record sha256 jsonb env entry).inside part >>= fun _ => (· + 1) <$> k)
  | other {β : Type} (p : Prog σ M Error β) (k : β → Prog σ M Error ℕ) :
      p.Keeps part.view → (∀ b, Recording (k b)) → Recording (p >>= k)

/-- A table as `record` leaves it. -/
structure Db.Sound (d : Db) : Prop where
  ascending : d.auditLog.Pairwise fun r s => r.seq < s.seq
  drawn : ∀ row ∈ d.auditLog, 0 < row.seq ∧ row.seq ≤ d.lastSeq
  chained : Chained sha256 none d.auditLog

/-- Only who holds the lock changes the audit trail. -/
def auditProtocol : Protocol σ M where
  Inv d := (part.view d).Sound sha256
  Guar T d d' := part.name .auditLog ∉ T → part.view d' = part.view d

/-- What a transaction has pending are rows that go on where the table ends. -/
structure Pending (S : Set M) (f : σ → σ) (d : σ) (rows : List AuditRow) : Prop where
  locked : rows ≠ [] → part.name .auditLog ∈ S
  pending : ∀ d, part.view (f d) = (part.view d).append rows
  sound : ((part.view d).append rows).Sound sha256

end Transaction

variable {sha256 : Str → Str} {jsonb : Json → Json}

namespace Db.Sound

variable {d : Db}

theorem chain_eq (h : d.Sound sha256) : d.chain = d.auditLog := by
  have hpos : (d.auditLog.filter fun row => 0 < row.seq) = d.auditLog :=
    List.filter_eq_self.2 fun row hrow => by simpa using (h.drawn row hrow).1
  rw [Db.chain, behind, hpos, orderBy_of_sorted h.ascending]

theorem keys (h : d.Sound sha256) : (d.auditLog.map AuditRow.seq).Nodup :=
  List.pairwise_map.2 (h.ascending.imp fun hlt => hlt.ne)

theorem last_eq (h : d.Sound sha256) :
    (AuditService.last d).map AuditRow.hash = lastHash d.auditLog := by
  rw [AuditService.last, orderBy_of_sorted h.ascending, lastHash]

/-- A sound table verifies. -/
theorem answers (h : d.Sound sha256) : Answers sha256 d
    { intact := true, checked := d.auditLog.length, brokenAtSeq := none } := by
  rw [answers_iff h.keys, h.chain_eq, AuditService.checkRows_chained h.chained]
  simp

/-- A number that is drawn and not used is a gap. -/
theorem nextSeq (h : d.Sound sha256) : d.nextSeq.Sound sha256 where
  ascending := h.ascending
  drawn row hrow := ⟨(h.drawn row hrow).1, Nat.le_succ_of_le (h.drawn row hrow).2⟩
  chained := h.chained

theorem snoc (h : d.Sound sha256) {row : AuditRow} (hseq : row.seq = d.lastSeq + 1)
    (hlink : row.prevHash = lastHash d.auditLog)
    (hown : chainHash sha256 (contentOf row) row.prevHash = row.hash) :
    (d.nextSeq.append [row]).Sound sha256 where
  ascending := by
    rw [Db.append, Db.nextSeq, List.pairwise_append]
    refine ⟨h.ascending, List.pairwise_singleton _ _, fun r hr s hs => ?_⟩
    obtain rfl := List.mem_singleton.1 hs
    rw [hseq]
    exact Nat.lt_succ_of_le (h.drawn r hr).2
  drawn r hr := by
    rcases List.mem_append.1 hr with hr | hr
    · exact h.nextSeq.drawn r hr
    · obtain rfl := List.mem_singleton.1 hr
      rw [hseq]
      exact ⟨Nat.succ_pos _, Nat.le_refl _⟩
  chained := by
    rw [Db.append, Db.nextSeq, chained_append, Option.or_none]
    exact ⟨h.chained, hlink, hown, trivial⟩

end Db.Sound

theorem append_nil (d : Db) : d.append [] = d := by
  rw [Db.append, List.append_nil]

/-! ## One transaction among others -/

section Protocol

variable {σ M : Type} {part : Part σ M Db Lock} {S S' : Set M} {f g : σ → σ} {d d' : σ}
  {rows : List AuditRow}

theorem rely_view (hlock : part.name .auditLog ∈ S) (h : (auditProtocol part sha256).Rely S d d') :
    part.view d' = part.view d := by
  apply Rely.same (χ := part.view) _ h
  rintro d d' ⟨-, T, hdisj, hguar⟩
  exact hguar (Set.disjoint_left.1 hdisj hlock)

theorem Pending.rely (h : Pending part sha256 S f d rows) (hd : (part.view d).Sound sha256)
    (hr : (auditProtocol part sha256).Rely S d d') : Pending part sha256 S f d' rows := by
  refine ⟨h.locked, h.pending, ?_⟩
  by_cases hrows : rows = []
  · subst hrows
    rw [append_nil]
    exact hr.inv hd
  · rw [rely_view (h.locked hrows) hr]
    exact h.sound

theorem Pending.mono (h : Pending part sha256 S f d rows) (hS : S ⊆ S')
    (hg : ∀ d, part.view (g d) = part.view d) : Pending part sha256 S' (g ∘ f) d rows :=
  ⟨fun hrows => hS (h.locked hrows), fun d => (hg (f d)).trans (h.pending d), h.sound⟩

variable (hjsonb : ∀ v : Json, v.Distinct → v.Reordered (jsonb v))

include hjsonb in
/-- What is read back from a row is what was hashed. -/
theorem contentOf_rowOf (env : Env) (entry : AuditRecord) (prevHash : Option Str) (hash : Str)
    (seq : ℕ) :
    (contentOf (rowOf jsonb (AuditService.newContent env entry) env.now prevHash hash seq)).normal =
      (AuditService.newContent env entry).normal := by
  have hdistinct : (AuditService.newContent env entry).changes.Distinct := by
    cases h : entry.changes with
    | none => simp [AuditService.newContent, h, Json.Distinct, DistinctFields]
    | some changes => simpa [AuditService.newContent, h] using changes.distinct
  have hchanges := (hjsonb _ hdistinct).normal
  simp only [contentOf, rowOf, toDate_fromDate, AuditContent.normal, ← hchanges]
  rfl

include hjsonb in
/-- An entry that is recorded goes on where the table ends. -/
theorem wp_record {K : Unit → Set M → (σ → σ) → σ → Prop} (env : Env) (entry : AuditRecord)
    (hd : (part.view d).Sound sha256) (h : Pending part sha256 S f d rows)
    (hK : ∀ S' f' d' row, (part.view d').Sound sha256 → Pending part sha256 S' f' d' (rows ++ [row]) →
      K () S' f' d') :
    (auditProtocol part sha256).wp K Anyway ((AuditService.record sha256 jsonb env entry).inside part)
      S f d := by
  simp only [AuditService.record, insert, Prog.inside, Prog.zoom_bind, Prog.zoom_acquire,
    Prog.zoom_get, Prog.zoom_require, Prog.zoom_atOnce, Prog.zoom_modify, wp_bind, wp_acquire, wp_map,
    wp_get, wp_require, wp_atOnce, wp_modify, implies_true, and_true]
  intro d₁ hr₁ hd₁ d₂ hr₂ hd₂ _ d₃ hr₃ hd₃
  set S₁ : Set M := Insert.insert (part.name .auditLog) S with hS₁
  have hlock : part.name .auditLog ∈ S₁ := Set.mem_insert _ _
  have hview₃ : part.view d₃ = part.view d₂ := rely_view hlock hr₃
  -- the predecessor is the newest row under the own pending ones
  have h₂ : Pending part sha256 S₁ f d₂ rows :=
    ((h.rely hd hr₁).mono (Set.subset_insert _ _) fun _ => rfl).rely hd₁ hr₂
  have h₃ : Pending part sha256 S₁ f d₃ rows := h₂.rely hd₂ hr₃
  have hprev : (AuditService.last (part.view (f d₂))).map AuditRow.hash =
      lastHash ((part.view d₃).append rows).auditLog := by
    rw [h₂.pending, hview₃]
    exact h₂.sound.last_eq
  refine ⟨fun hfree => absurd hlock hfree, ?_, ?_⟩
  · change Db.Sound sha256 (part.view _)
    rw [part.view_put]
    exact Db.Sound.nextSeq hd₃
  · intro d₄ hr₄ hd₄ _
    have hview₄ : part.view d₄ = (part.view d₃).nextSeq :=
      (rely_view hlock hr₄).trans (part.view_put _ _)
    set content := AuditService.newContent env entry
    set prevHash := (AuditService.last (part.view (f d₂))).map AuditRow.hash
    set row := rowOf jsonb content env.now prevHash (chainHash sha256 content prevHash)
      (part.view (f d₄)).lastSeq with hrow
    have hseq : row.seq = ((part.view d₃).append rows).lastSeq + 1 := by
      rw [hrow, rowOf, h₃.pending, hview₄]
      rfl
    have hown : chainHash sha256 (contentOf row) row.prevHash = row.hash :=
      chainHash_congr sha256 (contentOf_rowOf hjsonb env entry _ _ _) _
    apply hK _ _ _ row hd₄
    constructor
    · exact fun _ => hlock
    · intro d
      rw [Function.comp_apply, part.view_put, h₃.pending d]
      simp [Db.append]
    · rw [hview₄]
      simpa [Db.append, Db.nextSeq] using h₃.sound.snoc hseq hprev hown

include hjsonb in
/-- The whole of a transaction goes on where the table ends when it commits. -/
theorem recording_pending {p : Prog σ M Error ℕ} (hp : Recording part sha256 jsonb p)
    (hd : (part.view d).Sound sha256) (h : Pending part sha256 S f d rows) :
    (auditProtocol part sha256).wp (fun n S f d => (part.view d).Sound sha256 ∧
      ∃ more, Pending part sha256 S f d (rows ++ more) ∧ more.length = n) Anyway p S f d := by
  induction hp generalizing S f d rows with
  | done => exact ⟨hd, [], by simpa using h, rfl⟩
  | rollback e => trivial
  | record env entry k _ ih =>
      rw [wp_bind]
      apply wp_record hjsonb env entry hd h
      intro S₁ f₁ d₁ row hd₁ h₁
      rw [wp_map]
      refine wp_mono ?_ (fun _ _ _ _ => trivial) (ih hd₁ h₁)
      rintro n S₂ f₂ d₂ ⟨hd₂, more, h₂, hmore⟩
      exact ⟨hd₂, row :: more, by simpa using h₂, by simp [hmore]⟩
  | other p k hp _ ih =>
      rw [wp_bind]
      refine wp_of_keeps hp hd fun b S₁ g d₁ hS₁ hg hr hd₁ => ?_
      exact ih b hd₁ ((h.rely hd hr).mono hS₁ hg)

theorem whole_record (env : Env) (entry : AuditRecord) :
    (AuditService.record sha256 jsonb env entry).Whole fun d => d.auditLog.length := by
  refine .bind (.acquire _) fun _ => .bind .get fun d => ?_
  refine .bind (.require _ _) fun _ => .bind (.atOnce fun _ => rfl) fun _ => ?_
  exact .bind .get fun d => .bind (.require _ _) fun _ => .modify _

theorem whole_recording {p : Prog σ M Error ℕ} (hp : Recording part sha256 jsonb p) :
    p.Whole fun d => (part.view d).auditLog.length := by
  induction hp with
  | done | rollback => trivial
  | record env entry k _ ih =>
      have hentry : ((AuditService.record sha256 jsonb env entry).inside part).Whole fun d =>
          (part.view d).auditLog.length :=
        Prog.Whole.zoom (whole_record env entry) fun s t h => by rw [part.view_put, h]
      apply Prog.Whole.bind hentry
      intro _
      apply Prog.Whole.map _ ih
  | other p k hp _ ih => exact .bind hp.whole ih

end Protocol

/-! ## Every interleaving -/

section Run

variable {σ M ι : Type} [DecidableEq ι] {part : Part σ M Db Lock}

/-- A request is any transaction that records entries. -/
abbrev RecordCall (part : Part σ M Db Lock) (sha256 : Str → Str) (jsonb : Json → Json) :=
  { p : Prog σ M Error ℕ // Recording part sha256 jsonb p }

def RecordCall.code (call : RecordCall part sha256 jsonb) : Prog σ M Error ℕ := call.1

theorem recordCall_safe (hjsonb : ∀ v : Json, v.Distinct → v.Reordered (jsonb v))
    (call : RecordCall part sha256 jsonb) (d : σ) (hd : (auditProtocol part sha256).Inv d) :
    (auditProtocol part sha256).wp
      ((auditProtocol part sha256).Done fun n d d' =>
        (part.view d').auditLog.length = (part.view d).auditLog.length + n)
      ((auditProtocol part sha256).Failed fun _ _ => True) call.code ∅ id d := by
  have hnothing : Pending part sha256 ∅ id d [] :=
    ⟨by simp, fun _ => by simp [Db.append], by rwa [append_nil]⟩
  refine wp_mono ?_ (fun _ _ _ _ _ _ _ => trivial) (recording_pending hjsonb call.2 hd hnothing)
  rintro n S f d₁ ⟨hd₁, rows, h, rfl⟩ d' hr _
  have h' := h.rely hd₁ hr
  rw [List.nil_append] at h'
  refine ⟨fun hfree => ?_, ?_, ?_⟩
  · have hrows : rows = [] := by
      by_contra hne
      exact hfree (h'.locked hne)
    simp [h'.pending, hrows, Db.append]
  · change Db.Sound sha256 (part.view (f d'))
    rw [h'.pending]
    exact h'.sound
  · simp [h'.pending, Db.append]

/-- `verify` finds whatever was committed intact, and counts it. -/
theorem recorded_verifies (hjsonb : ∀ v : Json, v.Distinct → v.Reordered (jsonb v))
    {start w : World ι (RecordCall part sha256 jsonb) σ M Error ℕ}
    {labels : List (Label ι (RecordCall part sha256 jsonb) Error ℕ)} (hidle : start.Idle)
    (hfresh : (part.view start.db).auditLog = []) (hrun : Run RecordCall.code start labels w) :
    Answers sha256 (part.view w.db)
      { intact := true, checked := (committed labels).sum, brokenAtSeq := none } := by
  have hinv : (auditProtocol part sha256).Inv start.db :=
    ⟨by simp [hfresh], by simp [hfresh], by simp [hfresh, Chained]⟩
  have hsafe := fun (call : RecordCall part sha256 jsonb) (d : σ) hd => recordCall_safe hjsonb call d hd
  have hwhole : ∀ call : RecordCall part sha256 jsonb,
      call.code.Whole fun d => (part.view d).auditLog.length := fun call => whole_recording call.2
  have hcount : (part.view w.db).auditLog.length = (committed labels).sum := by
    refine Sound.history (G := fun given n => n = given.sum) hsafe hwhole hidle hinv ?_ ?_ hrun
    · simp [hfresh]
    · intro given q n d d' _ hgiven hpost
      rw [hpost, hgiven, List.sum_append, List.sum_singleton]
  have hsound : (part.view w.db).Sound sha256 :=
    (Sound.reachable hsafe (.of_idle hidle hinv) (hrun.reachable RecordCall.code)).inv
  rw [← hcount]
  exact hsound.answers

end Run

/-! ### Two entries -/

/-- An entry that the system makes about somebody. -/
def sampleContent (date : Instant) (action : Str) : AuditContent :=
  ⟨toISOString date, none, none, action, "user".toList, none, .obj [], none, none, none⟩

def invited : AuditContent := sampleContent 1790330400000 "user.invited".toList

def disabled : AuditContent := sampleContent 1790330401000 "user.disabled".toList

def firstDigest : Str :=
  ["83fc44a31e33930d", "3c887fd5cdd9bb38", "63ab01ec64bf4c30", "3353177587d5a8c1"].flatMap String.toList

def secondDigest : Str :=
  ["7767aba7a78cda14", "1ebde219f1e86873", "088878597c58d25e", "e884d1c65e4b9143"].flatMap String.toList

/-- What `sha256` gives for the two entries, one after the other. -/
def sampleHash : Str → Str := tableHash
  [('\n' :: canonicalJson invited.json, firstDigest),
    (firstDigest ++ '\n' :: canonicalJson disabled.json, secondDigest)]

theorem sampleHash_injective : Function.Injective sampleHash := by
  have hdigests : firstDigest ≠ secondDigest := by decide
  apply tableHash_injective
  · simp only [List.mem_cons, List.not_mem_nil, or_false, forall_eq_or_imp, forall_eq]
    exact ⟨by decide, by decide⟩
  · simp [hdigests, hdigests.symm]

theorem sampleHash_ne_nil (s : Str) : sampleHash s ≠ [] := by
  apply tableHash_ne_nil
  simp only [List.mem_cons, List.not_mem_nil, or_false, forall_eq_or_imp, forall_eq]
  exact ⟨by decide, by decide⟩

abbrev SampleCall := RecordCall (Part.whole : Part Db Lock Db Lock) sampleHash id

/-- A transaction that makes one entry, kept or rolled back. -/
def sampleCall (date : Instant) (action : Str) (keep : Bool) : SampleCall :=
  ⟨(AuditService.record sampleHash id { now := date } { action := action, entityType := "user".toList }).inside
      Part.whole >>= fun _ => (· + 1) <$> if keep then pure 0 else Prog.throw invalidText,
    .record _ _ _ (by
      cases keep
      · exact .rollback _
      · exact .done)⟩

/-- Somebody is invited, and disabled a second later; a transaction that had to wait
rolls back in between. -/
def sampleScript : List (Move SampleCall) :=
  [.begins true (sampleCall 1790330400000 "user.invited".toList true), .turns true 2,
    .begins false (sampleCall 0 "user.enabled".toList false), .turns false 1, .turns true 8,
    .turns false 8, .begins false (sampleCall 1790330401000 "user.disabled".toList true),
    .turns false 8]

def sampleLog : Db := (Duo.play RecordCall.code (Duo.idle {}) sampleScript).db

theorem sampleLog_sound : sampleLog.Sound sampleHash := by
  have hempty : (auditProtocol Part.whole sampleHash).Inv (Duo.idle {} : Duo SampleCall Db Lock Error ℕ).world.db :=
    ⟨.nil, by simp [Duo.idle, Duo.world, Part.whole], trivial⟩
  have hsafe := fun (call : SampleCall) (d : Db) hd => recordCall_safe (fun v _ => .refl v) call d hd
  have hw := Duo.play_reachable RecordCall.code (Duo.idle {}) sampleScript
  exact (Sound.reachable hsafe (.of_idle (fun _ => rfl) hempty) hw).inv

theorem recorded_verifies_sample : ∃ labels w,
    Run RecordCall.code (⟨{}, fun _ => none⟩ : World Bool SampleCall Db Lock Error ℕ) labels w ∧
      w.db.auditLog.map AuditRow.seq = [1, 3] ∧ Answers sampleHash w.db
        { intact := true, checked := (committed labels).sum, brokenAtSeq := none } := by
  have hverifies : ∀ labels w,
      Run RecordCall.code (⟨{}, fun _ => none⟩ : World Bool SampleCall Db Lock Error ℕ) labels w →
        Answers sampleHash w.db
          { intact := true, checked := (committed labels).sum, brokenAtSeq := none } :=
    fun labels w hrun => recorded_verifies (fun v _ => .refl v) (fun _ => rfl) rfl hrun
  obtain ⟨labels, hrun⟩ := (Duo.play_reachable RecordCall.code (Duo.idle {}) sampleScript).run
  exact ⟨labels, _, hrun, by decide +kernel, hverifies _ _ hrun⟩

end Emis.Audit
