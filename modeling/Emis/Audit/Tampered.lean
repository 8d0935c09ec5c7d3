import Emis.Audit.Recorded

/-!
# What tampering `verify` finds

Somebody who cannot compute new hashes edits, removes and exchanges rows. What
is left is found intact exactly if it is an initial part of the original chain:
every change but the removal of the newest rows breaks a link.
-/

namespace Emis.Audit

open Transactions

/-- What an audit row says, with the keys of its changes in order. -/
structure Record where
  content : AuditContent
  prevHash : Option Str
  hash : Str

def recordOf (row : AuditRow) : Record := ⟨(contentOf row).normal, row.prevHash, row.hash⟩

/-- The records in their order. -/
def Db.records (d : Db) : List Record := d.chain.map recordOf

/-- What the identity column and its unique index see to. -/
structure Db.Numbered (d : Db) : Prop where
  keys : (d.auditLog.map AuditRow.seq).Nodup
  pos : ∀ row ∈ d.auditLog, 0 < row.seq

/-- Rows of `d` with other contents, fewer of them or at each other's places. No
hash is new, and the identity column stays unique. -/
structure Tampered (d d' : Db) : Prop where
  keys : (d'.auditLog.map AuditRow.seq).Nodup
  places : ∀ row' ∈ d'.auditLog, ∃ row ∈ d.auditLog, row.seq = row'.seq
  hashes : ∀ row' ∈ d'.auditLog, ∃ row ∈ d.auditLog, row.hash = row'.hash

variable {sha256 : Str → Str} {d d' : Db}

theorem Db.Numbered.mem_chain (h : d.Numbered) {row : AuditRow} (hrow : row ∈ d.auditLog) :
    row ∈ d.chain := by
  rw [Db.chain, behind, (orderBy_perm _ _).mem_iff, List.mem_filter]
  exact ⟨hrow, by simpa using h.pos row hrow⟩

theorem mem_of_mem_chain {row : AuditRow} (h : row ∈ d.chain) : row ∈ d.auditLog := by
  rw [Db.chain, behind, (orderBy_perm _ _).mem_iff, List.mem_filter] at h
  exact h.1

/-- Rows go. -/
theorem tampered_of_sublist (hd : d.Numbered) {rows : List AuditRow} (h : rows.Sublist d.auditLog) :
    Tampered d { d with auditLog := rows } where
  keys := hd.keys.sublist (h.map _)
  places row hrow := ⟨row, h.subset hrow, rfl⟩
  hashes row hrow := ⟨row, h.subset hrow, rfl⟩

/-- Rows are edited. -/
theorem tampered_map (hd : d.Numbered) {edit : AuditRow → AuditRow}
    (hseq : ∀ row, (edit row).seq = row.seq) (hhash : ∀ row, (edit row).hash = row.hash) :
    Tampered d { d with auditLog := d.auditLog.map edit } where
  keys := by simpa [List.map_map, Function.comp_def, hseq] using hd.keys
  places row' hrow' := by
    obtain ⟨row, hrow, rfl⟩ := List.mem_map.1 hrow'
    exact ⟨row, hrow, (hseq row).symm⟩
  hashes row' hrow' := by
    obtain ⟨row, hrow, rfl⟩ := List.mem_map.1 hrow'
    exact ⟨row, hrow, (hhash row).symm⟩

/-! ## A chain is told by its records -/

theorem chained_congr {prevHash : Option Str} {rows rows' : List AuditRow}
    (h : rows.map recordOf = rows'.map recordOf) (hrows : Chained sha256 prevHash rows) :
    Chained sha256 prevHash rows' := by
  induction rows generalizing prevHash rows' with
  | nil =>
      obtain rfl : rows' = [] := by simpa [eq_comm] using h
      trivial
  | cons row rows ih =>
      obtain ⟨row', rows', rfl⟩ := List.exists_cons_of_ne_nil (l := rows') (by rintro rfl; simp at h)
      simp only [List.map_cons, List.cons.injEq, recordOf, Record.mk.injEq] at h
      obtain ⟨⟨hcontent, hprev, hhash⟩, hrest⟩ := h
      obtain ⟨hlink, hown, hchain⟩ := hrows
      rw [hprev] at hlink hown
      rw [hhash, chainHash_congr sha256 hcontent] at hown
      rw [hhash] at hchain
      exact ⟨hlink, hown, ih hrest hchain⟩

/-! ## The place of a hash -/

section Place

variable (hsha : Function.Injective sha256) (hdigest : ∀ s, sha256 s ≠ [])
  {whole : List AuditRow} (hwhole : Chained sha256 none whole)

include hwhole in
theorem link_of_append {before after : List AuditRow} {row : AuditRow}
    (h : whole = before ++ row :: after) :
    row.prevHash = lastHash before ∧
      chainHash sha256 (contentOf row) (lastHash before) = row.hash := by
  rw [h, chained_append, Option.or_none] at hwhole
  obtain ⟨hlink, hown, -⟩ := hwhole.2
  exact ⟨hlink, hlink ▸ hown⟩

include hdigest hwhole in
theorem lastHash_ne_nil {before after : List AuditRow} (h : whole = before ++ after) {s : Str}
    (hs : lastHash before = some s) : s ≠ [] := by
  rcases List.eq_nil_or_concat before with rfl | ⟨before, row, rfl⟩
  · simp [lastHash] at hs
  · rw [List.concat_eq_append, lastHash_snoc] at hs
    rw [List.concat_eq_append, List.append_assoc, List.singleton_append] at h
    obtain rfl := Option.some_inj.1 hs
    rw [← (link_of_append hwhole h).2, chainHash]
    exact hdigest _

include hdigest hwhole in
/-- No digest is the empty text, so a previous hash is told from none. -/
theorem lastHash_eq_of_getD {before after before' after' : List AuditRow}
    (h : whole = before ++ after) (h' : whole = before' ++ after')
    (heq : (lastHash before).getD [] = (lastHash before').getD []) :
    lastHash before = lastHash before' := by
  cases hs : lastHash before with
  | none =>
      cases hs' : lastHash before' with
      | none => rfl
      | some s' =>
          rw [hs, hs'] at heq
          exact absurd heq.symm (lastHash_ne_nil hdigest hwhole h' hs')
  | some s =>
      cases hs' : lastHash before' with
      | none =>
          rw [hs, hs'] at heq
          exact absurd heq (lastHash_ne_nil hdigest hwhole h hs)
      | some s' => simpa [hs, hs'] using heq

include hsha hdigest hwhole in
/-- A hash stands at one place of the chain only. -/
theorem eq_of_lastHash {before after before' after' : List AuditRow}
    (h : whole = before ++ after) (h' : whole = before' ++ after')
    (heq : lastHash before = lastHash before') : before = before' := by
  induction before using List.reverseRecOn generalizing after before' after' with
  | nil =>
      rcases List.eq_nil_or_concat before' with rfl | ⟨before', row', rfl⟩
      · rfl
      · rw [List.concat_eq_append, lastHash_snoc] at heq
        simp [lastHash] at heq
  | append_singleton before row ih =>
      rcases List.eq_nil_or_concat before' with rfl | ⟨before', row', rfl⟩
      · rw [lastHash_snoc] at heq
        simp [lastHash] at heq
      · rw [List.concat_eq_append] at heq h' ⊢
        rw [lastHash_snoc, lastHash_snoc, Option.some_inj] at heq
        rw [List.append_assoc, List.singleton_append] at h h'
        have hhash := (link_of_append hwhole h).2.trans (heq.trans (link_of_append hwhole h').2.symm)
        obtain ⟨-, hprev⟩ := chainHash_inj hsha hhash
        obtain rfl := ih h h' (lastHash_eq_of_getD hdigest hwhole h h' hprev)
        obtain ⟨rfl, -⟩ := List.cons.inj (List.append_cancel_left (h.symm.trans h'))
        rfl

include hsha hdigest hwhole in
/-- Rows that follow each other, with hashes of the chain, go on as the chain does. -/
theorem prefix_of_chained {before after rows : List AuditRow} (h : whole = before ++ after)
    (hrows : Chained sha256 (lastHash before) rows)
    (hhashes : ∀ row' ∈ rows, ∃ row ∈ whole, row.hash = row'.hash) :
    rows.map recordOf <+: after.map recordOf := by
  induction rows generalizing before after with
  | nil => exact List.nil_prefix
  | cons row' rows ih =>
      obtain ⟨hlink, hown, hrest⟩ := hrows
      obtain ⟨row, hrow, hhash⟩ := hhashes row' (by simp)
      obtain ⟨before', after', hplace⟩ := List.append_of_mem hrow
      obtain ⟨hlink', hown'⟩ := link_of_append hwhole hplace
      have hsame : chainHash sha256 (contentOf row') row'.prevHash =
          chainHash sha256 (contentOf row) (lastHash before') := by
        rw [hown, hown', hhash]
      obtain ⟨hcontent, hprev⟩ := chainHash_inj hsha hsame
      rw [hlink] at hprev
      have hlast := lastHash_eq_of_getD hdigest hwhole h hplace hprev
      obtain rfl := eq_of_lastHash hsha hdigest hwhole h hplace hlast
      obtain rfl := List.append_cancel_left (h.symm.trans hplace)
      have hrecord : recordOf row' = recordOf row := by
        rw [recordOf, recordOf, hcontent, hlink, hlink', hhash]
      rw [List.map_cons, List.map_cons, hrecord, List.cons_prefix_cons]
      have hnext : whole = (before ++ [row]) ++ after' := by simpa using h
      rw [← hhash, ← lastHash_snoc before row] at hrest
      exact ⟨rfl, ih hnext hrest fun r hr => hhashes r (by simp [hr])⟩

end Place

/-! ## What is found -/

/-- What is left of an intact chain is found intact exactly if it is its beginning. -/
theorem intact_iff_initial (hsha : Function.Injective sha256) (hdigest : ∀ s, sha256 s ≠ [])
    (hd : d.Numbered) (hintact : Intact sha256 d) (htamper : Tampered d d') :
    Intact sha256 d' ↔ d'.records <+: d.records := by
  rw [intact_iff hd.keys] at hintact
  rw [intact_iff htamper.keys]
  constructor
  · intro h
    have hhashes : ∀ row' ∈ d'.chain, ∃ row ∈ d.chain, row.hash = row'.hash := by
      intro row' hrow'
      obtain ⟨row, hrow, hhash⟩ := htamper.hashes row' (mem_of_mem_chain hrow')
      exact ⟨row, hd.mem_chain hrow, hhash⟩
    have hstart : d.chain = [] ++ d.chain := rfl
    exact prefix_of_chained hsha hdigest hintact hstart h hhashes
  · intro h
    have htake : (d.chain.take d'.chain.length).map recordOf = d'.chain.map recordOf := by
      rw [Db.records, Db.records, List.prefix_iff_eq_take, List.length_map] at h
      rw [h, List.map_take]
    have hfirst : Chained sha256 none (d.chain.take d'.chain.length) := by
      rw [← List.take_append_drop d'.chain.length d.chain, chained_append] at hintact
      exact hintact.1
    exact chained_congr htake hfirst

/-- A table that differs in what its records say or in their order is found out,
unless only the newest records are gone. -/
theorem tampering_found_iff (hsha : Function.Injective sha256) (hdigest : ∀ s, sha256 s ≠ [])
    (hd : d.Numbered) (hintact : Intact sha256 d) (htamper : Tampered d d') :
    (d'.records ≠ d.records → ¬ Intact sha256 d') ↔
      ¬ (d'.records <+: d.records ∧ d'.records ≠ d.records) := by
  rw [intact_iff_initial hsha hdigest hd hintact htamper, not_and, not_not]
  exact ⟨fun h hpre => not_not.1 fun hne => h hne hpre, fun h hne hpre => hne (h hpre)⟩

theorem Db.Sound.numbered (h : d.Sound sha256) : d.Numbered :=
  ⟨h.keys, fun row hrow => (h.drawn row hrow).1⟩

theorem Db.Sound.intact (h : d.Sound sha256) : Intact sha256 d := ⟨_, h.answers, rfl⟩

/-- Without its newest rows a table is as sound as before. -/
theorem Db.Sound.take (h : d.Sound sha256) (n : ℕ) :
    { d with auditLog := d.auditLog.take n }.Sound sha256 where
  ascending := h.ascending.sublist (List.take_sublist n _)
  drawn row hrow := h.drawn row (List.mem_of_mem_take hrow)
  chained := by
    have hchained := h.chained
    rw [← List.take_append_drop n d.auditLog, chained_append] at hchained
    exact hchained.1

/-! ### Two rows -/

/-- The newest row is gone. -/
def sampleCut : Db := { sampleLog with auditLog := sampleLog.auditLog.take 1 }

/-- Without its newest row the log is still found intact. -/
theorem cut_intact : ¬ ∀ (sha256 : Str → Str) (d d' : Db), Function.Injective sha256 →
    (∀ s, sha256 s ≠ []) → d.Numbered → Intact sha256 d → Tampered d d' →
    d'.records ≠ d.records → ¬ Intact sha256 d' := by
  intro h
  have htamper : Tampered sampleLog sampleCut :=
    tampered_of_sublist sampleLog_sound.numbered (List.take_sublist _ _)
  have hshorter : sampleCut.records.length ≠ sampleLog.records.length := by decide +kernel
  exact h sampleHash sampleLog sampleCut sampleHash_injective sampleHash_ne_nil
    sampleLog_sound.numbered sampleLog_sound.intact htamper
    (fun heq => hshorter (congrArg List.length heq)) (sampleLog_sound.take 1).intact

/-- Both rows say something else. -/
def sampleEdited : Db :=
  { sampleLog with auditLog := sampleLog.auditLog.map fun row => { row with action := "user.enabled".toList } }

theorem tampering_found_edited : ¬ Intact sampleHash sampleEdited := by
  have htamper : Tampered sampleLog sampleEdited :=
    tampered_map sampleLog_sound.numbered (fun _ => rfl) fun _ => rfl
  have hactions : ¬ sampleEdited.records.map (fun r => r.content.action) <+:
      sampleLog.records.map fun r => r.content.action := by decide +kernel
  have hnot : ¬ sampleEdited.records <+: sampleLog.records := fun h => hactions (h.map _)
  have hne : sampleEdited.records ≠ sampleLog.records := by
    intro heq
    rw [heq] at hnot
    exact hnot List.prefix_rfl
  exact (tampering_found_iff sampleHash_injective sampleHash_ne_nil
    sampleLog_sound.numbered sampleLog_sound.intact htamper).2 (fun h => hnot h.1) hne

end Emis.Audit
