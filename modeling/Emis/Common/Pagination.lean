import Emis.Common.Errors
import Emis.Library.Keyset
import Mathlib.Data.List.Sort

/-!
# Pages

`packages/db/src/pagination.ts` as the lists use it: newest first, by
`(created_at, id)`. PostgreSQL keeps whole microseconds; the `Date` that a row
is read into, and with it the cursor, keeps whole milliseconds.
-/

namespace Emis

/-- What a list is sorted by; `createdAt` counts microseconds, `id` is a `Uuid`. -/
structure SortKey where
  createdAt : ℤ
  id : ℕ
  deriving DecidableEq, Repr

/-- `[createdAt.toISOString(), id]`; `createdAt` counts milliseconds. -/
structure Cursor where
  createdAt : ℤ
  id : ℕ
  deriving DecidableEq, Repr

/-- The `Date` of a stored time. -/
def toDate (micros : ℤ) : ℤ := micros / 1000

def cursorOf (k : SortKey) : Cursor := ⟨toDate k.createdAt, k.id⟩

/-- `(created_at, id) < (…)`, compared by PostgreSQL. -/
def afterCursor (c : Cursor) (k : SortKey) : Bool :=
  k.createdAt < c.createdAt * 1000 || k.createdAt == c.createdAt * 1000 && decide (k.id < c.id)

/-- `ORDER BY created_at DESC, id DESC`. -/
def newestFirst (a b : SortKey) : Prop :=
  b.createdAt < a.createdAt ∨ a.createdAt = b.createdAt ∧ b.id ≤ a.id

instance : DecidableRel newestFirst := fun a b =>
  inferInstanceAs (Decidable (b.createdAt < a.createdAt ∨ a.createdAt = b.createdAt ∧ b.id ≤ a.id))

structure Page (T : Type) where
  items : List T
  nextCursor : Option Cursor
  deriving DecidableEq, Repr

section Lists

variable {T : Type} (key : T → SortKey)

/-- `limit + 1` fetched rows as a page: the extra row only says that there is
another page. -/
def toPage (rows : List T) (limit : ℕ) : Page T :=
  let hasMore := decide (limit < rows.length)
  let items := if hasMore then rows.take limit else rows
  { items := items
    nextCursor := if hasMore then items.getLast?.map fun r => cursorOf (key r) else none }

def newest (rows : List T) : List T := rows.insertionSort fun a b => newestFirst (key a) (key b)

/-- The rows a query matches, behind its cursor, newest first. -/
def listPage (matching : T → Bool) (table : List T) (limit : ℕ) (cursor : Option Cursor) : Page T :=
  let rows := newest key <| table.filter fun r =>
    matching r && cursor.all fun c => afterCursor c (key r)
  toPage key (rows.take (limit + 1)) limit

/-- Start without a cursor and follow `nextCursor` until it is null; `none` if
that takes more than `fuel` pages. -/
def walk (matching : T → Bool) (table : List T) (limit fuel : ℕ) : Option (List T) :=
  Keyset.follow (fun cursor =>
    let page := listPage key matching table limit cursor
    (page.items, page.nextCursor)) fuel none

end Lists

/-! ## Order -/

theorem afterCursor_iff {c : Cursor} {k : SortKey} : afterCursor c k = true ↔
    k.createdAt < c.createdAt * 1000 ∨ k.createdAt = c.createdAt * 1000 ∧ k.id < c.id := by
  simp [afterCursor]

section Order

variable {T : Type} {key : T → SortKey} {rows : List T}

theorem newestFirst_total (a b : SortKey) : newestFirst a b ∨ newestFirst b a := by
  unfold newestFirst
  omega

theorem newestFirst_trans {a b c : SortKey} (hab : newestFirst a b) (hbc : newestFirst b c) :
    newestFirst a c := by
  unfold newestFirst at *
  omega

theorem newest_perm (key : T → SortKey) (rows : List T) : (newest key rows).Perm rows :=
  List.perm_insertionSort _ _

theorem newest_sorted (key : T → SortKey) (rows : List T) :
    (newest key rows).Pairwise fun a b => newestFirst (key a) (key b) := by
  have htotal : Std.Total fun a b : T => newestFirst (key a) (key b) :=
    ⟨fun a b => newestFirst_total _ _⟩
  have htrans : IsTrans T fun a b => newestFirst (key a) (key b) := ⟨fun _ _ _ => newestFirst_trans⟩
  exact List.pairwise_insertionSort _ _

/-- Sorted lists of the same rows are equal. -/
theorem eq_of_newest (hids : (rows.map fun r => (key r).id).Nodup) {xs ys : List T}
    (hxs : xs.Perm rows) (hys : ys.Perm rows)
    (hx : xs.Pairwise fun a b => newestFirst (key a) (key b))
    (hy : ys.Pairwise fun a b => newestFirst (key a) (key b)) : xs = ys := by
  apply (hxs.trans hys.symm).eq_of_pairwise _ hx hy
  intro a b ha hb hab hba
  have hid : (key a).id = (key b).id := by
    unfold newestFirst at hab hba
    omega
  exact List.inj_on_of_nodup_map hids (hxs.subset ha) (hys.subset hb) hid

theorem newest_filter (hids : (rows.map fun r => (key r).id).Nodup) (q : T → Bool) :
    newest key (rows.filter q) = (newest key rows).filter q := by
  have hids' : ((rows.filter q).map fun r => (key r).id).Nodup := (List.filter_sublist.map _).nodup hids
  apply eq_of_newest hids' (newest_perm _ _) ((newest_perm key rows).filter q) (newest_sorted _ _)
  exact (newest_sorted key rows).sublist List.filter_sublist

/-- Newest first, the cursors are those of a keyset walk. -/
theorem newest_cursor (hids : (rows.map fun r => (key r).id).Nodup) :
    Keyset.Cursor (fun c r => afterCursor c (key r)) (fun r => cursorOf (key r))
      (newest key rows) := by
  have hstrict : (newest key rows).Pairwise fun a b =>
      newestFirst (key a) (key b) ∧ (key a).id ≠ (key b).id := by
    apply (newest_sorted key rows).and
    have hperm := ((newest_perm key rows).map fun r => (key r).id).nodup_iff.2 hids
    exact List.pairwise_map.1 hperm
  constructor
  · apply hstrict.imp
    intro a b ⟨hab, hne⟩ c
    rw [afterCursor_iff, afterCursor_iff]
    unfold newestFirst at hab
    omega
  · intro r _
    rw [← Bool.not_eq_true, afterCursor_iff]
    simp only [cursorOf, toDate]
    omega
  · apply hstrict.imp
    intro a b ⟨hab, hne⟩
    rw [← Bool.not_eq_true, afterCursor_iff]
    simp only [cursorOf, toDate]
    unfold newestFirst at hab
    omega

end Order

/-! ## Walking a list -/

section Walk

variable {T : Type} {key : T → SortKey} {matching : T → Bool} {table : List T} {limit : ℕ}

theorem toPage_take (rows : List T) :
    ((toPage key (rows.take (limit + 1)) limit).items,
      (toPage key (rows.take (limit + 1)) limit).nextCursor) =
    Keyset.cut (fun r => cursorOf (key r)) limit rows := by
  rw [← Keyset.cut_take, Keyset.cut, toPage]
  by_cases hmore : limit < (rows.take (limit + 1)).length
  · simp only [hmore, decide_true, if_true]
  · simp only [hmore, decide_false, Bool.false_eq_true, if_false]

/-- At every page boundary the next row is of an earlier millisecond than the
last one, or exactly on its whole millisecond with a smaller id. -/
def Crossable (limit : ℕ) (keys : List SortKey) : Prop :=
  ∀ k last next, keys[(k + 1) * limit - 1]? = some last → keys[(k + 1) * limit]? = some next →
    toDate next.createdAt < toDate last.createdAt ∨
      next.createdAt = toDate last.createdAt * 1000 ∧ next.id < last.id

theorem exact_iff_crossable (rows : List T) :
    Keyset.Exact (fun c r => afterCursor c (key r)) (fun r => cursorOf (key r)) limit rows ↔
      Crossable limit (rows.map key) := by
  have hcross : ∀ last next : SortKey, afterCursor (cursorOf last) next = true ↔
      toDate next.createdAt < toDate last.createdAt ∨
        next.createdAt = toDate last.createdAt * 1000 ∧ next.id < last.id := by
    intro last next
    rw [afterCursor_iff]
    simp only [cursorOf, toDate]
    omega
  simp only [Keyset.Exact, Crossable, List.getElem?_map, Option.map_eq_some_iff, hcross]
  constructor
  · rintro h k _ _ ⟨last, hlast, rfl⟩ ⟨next, hnext, rfl⟩
    exact h k last next hlast hnext
  · intro h k last next hlast hnext
    exact h k (key last) (key next) ⟨last, hlast, rfl⟩ ⟨next, hnext, rfl⟩

/-- The walk ends, and gives every matching row once and in order exactly if
every page boundary can be crossed. -/
theorem walk_complete_iff (key : T → SortKey) (matching : T → Bool) (table : List T)
    (hids : (table.map fun r => (key r).id).Nodup) (limit : ℕ) (hlimit : 1 ≤ limit) :
    ∃ walked, (∀ fuel, table.length < fuel → walk key matching table limit fuel = some walked) ∧
      (walked.Perm (table.filter matching) ∧
          walked.Pairwise (fun a b => newestFirst (key a) (key b)) ↔
        Crossable limit ((newest key (table.filter matching)).map key)) := by
  have hids' : ((table.filter matching).map fun r => (key r).id).Nodup :=
    (List.filter_sublist.map _).nodup hids
  set rows := newest key (table.filter matching) with hrows
  have hall : rows.filter (fun r => (none : Option Cursor).all fun c => afterCursor c (key r)) = rows :=
    List.filter_eq_self.2 fun _ _ => rfl
  have hfetch : ∀ c : Option Cursor,
      ((listPage key matching table limit c).items, (listPage key matching table limit c).nextCursor) =
        Keyset.cut (fun r => cursorOf (key r)) limit
          (rows.filter fun r => c.all fun c => afterCursor c (key r)) := by
    intro c
    rw [listPage, toPage_take, hrows, ← newest_filter hids', List.filter_filter]
    simp only [Bool.and_comm]
  have hlength : rows.length ≤ table.length := by
    rw [hrows, (newest_perm _ _).length_eq]
    exact List.length_filter_le _ _
  have hlt : (rows.filter fun r =>
      (none : Option Cursor).all fun c => afterCursor c (key r)).length < table.length + 1 := by
    rw [hall]
    omega
  obtain ⟨walked, hwalked, -, hiff⟩ :=
    (newest_cursor hids').follow_spec hlimit hfetch (table.length + 1) none hlt
  rw [hall, exact_iff_crossable] at hiff
  refine ⟨walked, fun fuel hfuel => Keyset.follow_mono hwalked hfuel, ?_⟩
  rw [← hiff]
  constructor
  · rintro ⟨hperm, hsorted⟩
    exact eq_of_newest hids' hperm (newest_perm _ _) hsorted (newest_sorted _ _)
  · rintro rfl
    exact ⟨newest_perm _ _, newest_sorted _ _⟩

/-- Rows a minute apart. -/
def minutes : List SortKey := [⟨60000000, 1⟩, ⟨120000000, 2⟩, ⟨180000000, 3⟩]

theorem walk_complete_iff_minutes :
    ∃ walked, walk id (fun _ => true) minutes 2 4 = some walked ∧
      walked.Perm (minutes.filter fun _ => true) := by
  obtain ⟨walked, hwalked, hiff⟩ :=
    walk_complete_iff id (fun _ => true) minutes (by decide) 2 (by decide)
  refine ⟨walked, hwalked 4 (by decide), (hiff.2 ?_).1⟩
  have hrows : (newest id (minutes.filter fun _ => true)).map id =
      [⟨180000000, 3⟩, ⟨120000000, 2⟩, ⟨60000000, 1⟩] := by decide
  rw [hrows]
  rintro (_ | k) last next hlast hnext
  · cases hlast
    cases hnext
    left
    decide
  · have hlt := (List.getElem?_eq_some_iff.1 hnext).1
    simp only [List.length_cons, List.length_nil] at hlt
    omega

/-- Two rows of one transaction, a page each: the second is behind no cursor. -/
theorem row_skipped :
    ¬ ∃ walked, walk id (fun _ => true) [⟨1500, 1⟩, ⟨1500, 2⟩] 1 3 = some walked ∧
      walked.Perm ([⟨1500, 1⟩, ⟨1500, 2⟩] : List SortKey) := by
  have hwalk : walk id (fun _ => true) ([⟨1500, 1⟩, ⟨1500, 2⟩] : List SortKey) 1 3 =
      some [⟨1500, 2⟩] := by decide
  rintro ⟨walked, hwalked, hperm⟩
  obtain rfl := Option.some_inj.1 (hwalk.symm.trans hwalked)
  simpa using hperm.length_eq

end Walk

end Emis
