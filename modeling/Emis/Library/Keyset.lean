import Mathlib.Data.List.Sort
import Mathlib.Order.Basic

/-!
# Walking a sorted list page by page

A page is cut off the rows that come after a cursor, and its last row gives the
cursor of the next page. The walk sees every row exactly if at each cut the
cursor of the last row lets the next row through.
-/

namespace Keyset

variable {ρ γ : Type}

/-- Ask for pages until there is no next cursor; `none` if that takes more than
`fuel` pages. -/
def follow (fetch : Option γ → List ρ × Option γ) : ℕ → Option γ → Option (List ρ)
  | 0, _ => none
  | fuel + 1, cursor =>
      match fetch cursor with
      | (items, none) => some items
      | (items, some next) => (follow fetch fuel next).map (items ++ ·)

/-- A walk that has ended is not changed by more fuel. -/
theorem follow_mono {fetch : Option γ → List ρ × Option γ} {fuel fuel' : ℕ} {c : Option γ}
    {items : List ρ} (h : follow fetch fuel c = some items) (hle : fuel ≤ fuel') :
    follow fetch fuel' c = some items := by
  induction fuel generalizing fuel' c items with
  | zero => simp [follow] at h
  | succ fuel ih =>
      obtain ⟨fuel', rfl⟩ : ∃ k, fuel' = k + 1 := ⟨fuel' - 1, by omega⟩
      simp only [follow] at h ⊢
      cases hpage : fetch c with
      | mk page next =>
      rw [hpage] at h
      cases next with
      | none => exact h
      | some next =>
          obtain ⟨rest, hrest, hitems⟩ := Option.map_eq_some_iff.1 h
          exact Option.map_eq_some_iff.2 ⟨rest, ih hrest (by omega), hitems⟩

/-- The first rows of a list, and the cursor of the last of them if there are more. -/
def cut (cursorOf : ρ → γ) (limit : ℕ) (rows : List ρ) : List ρ × Option γ :=
  if limit < rows.length then (rows.take limit, (rows.take limit).getLast?.map cursorOf)
  else (rows, none)

/-- One more row than the page holds says that there is another page. -/
theorem cut_take (cursorOf : ρ → γ) (limit : ℕ) (rows : List ρ) :
    cut cursorOf limit (rows.take (limit + 1)) = cut cursorOf limit rows := by
  unfold cut
  by_cases hmore : limit < rows.length
  · have hlength : limit < (rows.take (limit + 1)).length := by
      rw [List.length_take]
      omega
    have htake : (rows.take (limit + 1)).take limit = rows.take limit := by
      rw [List.take_take, Nat.min_eq_left (Nat.le_succ limit)]
    rw [if_pos hlength, if_pos hmore, htake]
  · rw [List.take_of_length_le (by omega)]

/-- Rows that are presented as they are fetched. -/
theorem follow_map {ρ' : Type} (f : ρ → ρ') (fetch : Option γ → List ρ × Option γ) (fuel : ℕ)
    (c : Option γ) :
    follow (fun c => ((fetch c).1.map f, (fetch c).2)) fuel c = (follow fetch fuel c).map (List.map f) := by
  induction fuel generalizing c with
  | zero => rfl
  | succ fuel ih =>
      rw [follow, follow]
      rcases fetch c with ⟨items, next⟩
      cases next with
      | none => rfl
      | some next =>
          simp only [ih, Option.map_map]
          congr 1
          funext rest
          simp

/-- A sorted list and a test for the rows behind a cursor. -/
structure Cursor (after : γ → ρ → Bool) (cursorOf : ρ → γ) (rows : List ρ) : Prop where
  /-- What comes after a row that is behind the cursor is behind it. -/
  mono : rows.Pairwise fun r s => ∀ c, after c r = true → after c s = true
  self : ∀ r ∈ rows, after (cursorOf r) r = false
  back : rows.Pairwise fun r s => after (cursorOf s) r = false

/-- At every cut the cursor lets the next row through. -/
def Exact (after : γ → ρ → Bool) (cursorOf : ρ → γ) (limit : ℕ) (rows : List ρ) : Prop :=
  ∀ k last next, rows[(k + 1) * limit - 1]? = some last → rows[(k + 1) * limit]? = some next →
    after (cursorOf last) next = true

section Exact

variable {after : γ → ρ → Bool} {cursorOf : ρ → γ} {limit : ℕ} {rows : List ρ}

theorem exact_of_length_le (h : rows.length ≤ limit) :
    Exact after cursorOf limit rows := by
  intro k last next _ hnext
  have hlt : (k + 1) * limit < rows.length := (List.getElem?_eq_some_iff.1 hnext).1
  have hle : limit ≤ (k + 1) * limit := Nat.le_mul_of_pos_left limit (Nat.succ_pos k)
  omega

theorem exact_iff_drop (hlimit : 1 ≤ limit) {last next : ρ} (hlast : rows[limit - 1]? = some last)
    (hnext : rows[limit]? = some next) :
    Exact after cursorOf limit rows ↔
      after (cursorOf last) next = true ∧ Exact after cursorOf limit (rows.drop limit) := by
  have hshift : ∀ k, limit + ((k + 1) * limit - 1) = (k + 1 + 1) * limit - 1 ∧
      limit + (k + 1) * limit = (k + 1 + 1) * limit := by
    intro k
    have hle : limit ≤ (k + 1) * limit := Nat.le_mul_of_pos_left limit (Nat.succ_pos k)
    rw [Nat.succ_mul (k + 1)]
    omega
  constructor
  · intro h
    constructor
    · exact h 0 last next (by simpa using hlast) (by simpa using hnext)
    · intro k last' next' hlast' hnext'
      rw [List.getElem?_drop] at hlast' hnext'
      rw [(hshift k).1] at hlast'
      rw [(hshift k).2] at hnext'
      exact h (k + 1) last' next' hlast' hnext'
  · rintro ⟨hfirst, hrest⟩ k last' next' hlast' hnext'
    cases k with
    | zero =>
        obtain rfl : last = last' := by simpa [hlast] using hlast'
        obtain rfl : next = next' := by simpa [hnext] using hnext'
        exact hfirst
    | succ k =>
        apply hrest k last' next'
        · rw [List.getElem?_drop, (hshift k).1]
          exact hlast'
        · rw [List.getElem?_drop, (hshift k).2]
          exact hnext'

end Exact

namespace Cursor

variable {after : γ → ρ → Bool} {cursorOf : ρ → γ} {limit : ℕ} {rows : List ρ}

theorem sublist (h : Cursor after cursorOf rows) {rest : List ρ} (hrest : rest.Sublist rows) :
    Cursor after cursorOf rest :=
  ⟨h.mono.sublist hrest, fun r hr => h.self r (hrest.subset hr), h.back.sublist hrest⟩

/-- A row that is let through comes later. -/
theorem mono_of_after (h : Cursor after cursorOf rows) {r s : ρ} (hr : r ∈ rows) (hs : s ∈ rows)
    (hafter : after (cursorOf r) s = true) (c : γ) (hc : after c r = true) : after c s = true := by
  have hpair : rows.Pairwise fun x y =>
      (∀ c, after c x = true → after c y = true) ∧ after (cursorOf y) x = false :=
    h.mono.and h.back
  have hall := List.Pairwise.forall_of_forall_of_flip (R := fun x y => x = y ∨
      ((∀ c, after c x = true → after c y = true) ∧ after (cursorOf y) x = false) ∨
      ((∀ c, after c y = true → after c x = true) ∧ after (cursorOf x) y = false))
    (fun x _ => Or.inl rfl) (hpair.imp fun hxy => Or.inr (Or.inl hxy))
    (hpair.imp fun hxy => Or.inr (Or.inr hxy))
  rcases hall hr hs with rfl | ⟨hmono, -⟩ | ⟨-, hback⟩
  · simp [h.self r hr] at hafter
  · exact hmono c hc
  · simp [hback] at hafter

/-- Nothing on the page is behind the cursor of its last row. -/
theorem filter_take (h : Cursor after cursorOf rows) {last : ρ} (hlimit : 1 ≤ limit)
    (hlast : rows[limit - 1]? = some last) :
    (rows.take limit).filter (after (cursorOf last)) = [] := by
  rw [List.filter_eq_nil_iff]
  intro r hr
  obtain ⟨hlt, rfl⟩ := List.getElem?_eq_some_iff.1 hlast
  obtain ⟨i, hi, rfl⟩ := List.mem_take_iff_getElem.1 hr
  rcases Nat.lt_or_ge i (limit - 1) with hlt' | hge
  · have hback := List.pairwise_iff_getElem.1 h.back i (limit - 1) (by omega) hlt hlt'
    simp [hback]
  · have heq : i = limit - 1 := by omega
    subst heq
    simp [h.self _ (List.getElem_mem hlt)]

theorem filter_drop (h : Cursor after cursorOf rows) {next : ρ} (hnext : rows[limit]? = some next)
    {c : γ} (hc : after c next = true) : (rows.drop limit).filter (after c) = rows.drop limit := by
  rw [List.filter_eq_self]
  intro r hr
  obtain ⟨hlt, rfl⟩ := List.getElem?_eq_some_iff.1 hnext
  obtain ⟨i, hi, rfl⟩ := List.mem_drop_iff_getElem.1 hr
  rcases Nat.eq_zero_or_pos i with rfl | hpos
  · simpa using hc
  · have hi' : limit + i < rows.length := by omega
    exact List.pairwise_iff_getElem.1 h.mono limit (limit + i) hlt hi' (by omega) c hc

/-- Walking from any cursor ends, never sees more than is behind the cursor, and
sees all of it exactly if every cut is exact. -/
theorem follow_spec (h : Cursor after cursorOf rows) (hlimit : 1 ≤ limit)
    {fetch : Option γ → List ρ × Option γ}
    (hfetch : ∀ c, fetch c = cut cursorOf limit (rows.filter fun r => c.all (after · r)))
    (fuel : ℕ) (c : Option γ) (hfuel : (rows.filter fun r => c.all (after · r)).length < fuel) :
    ∃ items, follow fetch fuel c = some items ∧
      items.length ≤ (rows.filter fun r => c.all (after · r)).length ∧
      (items = rows.filter (fun r => c.all (after · r)) ↔
        Exact after cursorOf limit (rows.filter fun r => c.all (after · r))) := by
  induction fuel generalizing c with
  | zero => omega
  | succ fuel ih =>
      set rest := rows.filter fun r => c.all (after · r) with hrestDef
      have hrest : Cursor after cursorOf rest := h.sublist List.filter_sublist
      rw [follow, hfetch, ← hrestDef, cut]
      by_cases hmore : limit < rest.length
      · obtain ⟨last, hlast⟩ : ∃ last, rest[limit - 1]? = some last :=
          ⟨_, List.getElem?_eq_getElem (by omega)⟩
        obtain ⟨next, hnext⟩ : ∃ next, rest[limit]? = some next :=
          ⟨_, List.getElem?_eq_getElem hmore⟩
        have hlastMem : last ∈ rest := List.mem_of_getElem? hlast
        have hgetLast : (rest.take limit).getLast? = some last := by
          rw [List.getLast?_take, if_neg (by omega), hlast, Option.some_or]
        -- What is behind the last row is what is behind it in the rest.
        have hbehind : rows.filter (fun r => (some (cursorOf last)).all (after · r)) =
            (rest.drop limit).filter (after (cursorOf last)) := by
          have hsame : rows.filter (after (cursorOf last)) = rest.filter (after (cursorOf last)) := by
            rw [hrestDef, List.filter_filter]
            apply List.filter_congr
            intro r hr
            cases hafter : after (cursorOf last) r with
            | false => simp
            | true =>
                have hlast' := List.mem_filter.1 hlastMem
                cases c with
                | none => simp
                | some c =>
                    simpa using (h.mono_of_after hlast'.1 hr hafter c (by simpa using hlast'.2))
          have hsplit : rest.filter (after (cursorOf last)) =
              (rest.take limit).filter (after (cursorOf last)) ++
                (rest.drop limit).filter (after (cursorOf last)) := by
            rw [← List.filter_append, List.take_append_drop]
          rw [hrest.filter_take hlimit hlast, List.nil_append] at hsplit
          simpa [hsame] using hsplit
        have hlength : (rest.drop limit).length = rest.length - limit := List.length_drop
        have hshorter : (rows.filter fun r =>
            (some (cursorOf last)).all (after · r)).length ≤ rest.length - limit := by
          rw [hbehind, ← hlength]
          exact List.length_filter_le _ _
        obtain ⟨items, hitems, hle, hiff⟩ := ih (some (cursorOf last)) (by omega)
        refine ⟨rest.take limit ++ items, ?_, ?_, ?_⟩
        · rw [if_pos hmore, hgetLast, Option.map_some]
          simp only [hitems, Option.map_some]
        · simp only [List.length_append, List.length_take]
          omega
        · rw [exact_iff_drop hlimit hlast hnext]
          have hcancel : rest.take limit ++ items = rest ↔ items = rest.drop limit := by
            conv_lhs => rhs; rw [← List.take_append_drop limit rest]
            exact List.append_right_inj _
          rw [hcancel]
          cases hafter : after (cursorOf last) next with
          | true =>
              rw [hbehind, hrest.filter_drop hnext hafter] at hiff
              simpa using hiff
          | false =>
              simp only [Bool.false_eq_true, false_and, iff_false]
              rintro rfl
              have hdrop : rest.drop limit = next :: rest.drop (limit + 1) := by
                obtain ⟨hlt, rfl⟩ := List.getElem?_eq_some_iff.1 hnext
                exact List.drop_eq_getElem_cons hlt
              rw [hbehind, hdrop, List.filter_cons, if_neg (by simp [hafter])] at hle
              have hfilter := List.length_filter_le (after (cursorOf last)) (rest.drop (limit + 1))
              rw [List.length_cons] at hle
              omega
      · rw [if_neg hmore]
        refine ⟨rest, rfl, Nat.le_refl _, ?_⟩
        simp only [true_iff]
        exact exact_of_length_le (Nat.not_lt.1 hmore)

end Cursor

/-! ## Whole keys as cursors -/

section Ascending

variable {κ : Type} [Preorder κ] {key : ρ → κ} {after : κ → ρ → Bool} {limit : ℕ} {rows : List ρ}

theorem Cursor.of_ascending (hafter : ∀ c r, after c r = true ↔ c < key r)
    (hrows : rows.Pairwise fun r s => key r < key s) : Cursor after key rows := by
  constructor
  · apply hrows.imp
    intro r s hrs c hc
    exact (hafter c s).2 (lt_trans ((hafter c r).1 hc) hrs)
  · intro r _
    rw [← Bool.not_eq_true, hafter]
    exact lt_irrefl _
  · apply hrows.imp
    intro r s hrs
    rw [← Bool.not_eq_true, hafter]
    exact lt_asymm hrs

theorem Exact.of_ascending (hlimit : 1 ≤ limit) (hafter : ∀ c r, after c r = true ↔ c < key r)
    (hrows : rows.Pairwise fun r s => key r < key s) : Exact after key limit rows := by
  intro k last next hlast hnext
  obtain ⟨hi, rfl⟩ := List.getElem?_eq_some_iff.1 hlast
  obtain ⟨hj, rfl⟩ := List.getElem?_eq_some_iff.1 hnext
  have hpos : limit ≤ (k + 1) * limit := Nat.le_mul_of_pos_left limit (Nat.succ_pos k)
  exact (hafter _ _).2 (List.pairwise_iff_getElem.1 hrows _ _ hi hj (by omega))

/-- Sorted by a key that is its own cursor, the pages add up to the list. -/
theorem follow_ascending (hlimit : 1 ≤ limit) (hafter : ∀ c r, after c r = true ↔ c < key r)
    (hrows : rows.Pairwise fun r s => key r < key s) {fetch : Option κ → List ρ × Option κ}
    (hfetch : ∀ c, fetch c = cut key limit (rows.filter fun r => c.all (after · r)))
    {fuel : ℕ} (hfuel : rows.length < fuel) : follow fetch fuel none = some rows := by
  have hall : rows.filter (fun r => (none : Option κ).all (after · r)) = rows :=
    List.filter_eq_self.2 fun _ _ => rfl
  have hcursor := Cursor.of_ascending hafter hrows
  obtain ⟨items, hitems, -, hiff⟩ := hcursor.follow_spec hlimit hfetch fuel none (by rwa [hall])
  rw [hall] at hiff
  rw [hitems, hiff.2 (Exact.of_ascending hlimit hafter hrows)]

end Ascending

section Sorted

variable {κ : Type} [LinearOrder κ] (key : ρ → κ)

/-- `ORDER BY key`. -/
def ascending (rows : List ρ) : List ρ := rows.insertionSort fun r s => key r ≤ key s

variable {key} {rows : List ρ}

theorem ascending_perm : (ascending key rows).Perm rows := List.perm_insertionSort _ _

theorem ascending_strict (hkeys : (rows.map key).Nodup) :
    (ascending key rows).Pairwise fun r s => key r < key s := by
  have htotal : Std.Total fun r s : ρ => key r ≤ key s := ⟨fun r s => le_total _ _⟩
  have htrans : IsTrans ρ fun r s => key r ≤ key s := ⟨fun _ _ _ => le_trans⟩
  have hsorted : (ascending key rows).Pairwise fun r s => key r ≤ key s :=
    List.pairwise_insertionSort _ _
  have hne : (ascending key rows).Pairwise fun r s => key r ≠ key s :=
    List.pairwise_map.1 ((ascending_perm.map key).nodup_iff.2 hkeys)
  exact (hsorted.and hne).imp fun h => lt_of_le_of_ne h.1 h.2

theorem ascending_filter (hkeys : (rows.map key).Nodup) (q : ρ → Bool) :
    ascending key (rows.filter q) = (ascending key rows).filter q := by
  have hkeys' : ((rows.filter q).map key).Nodup := (List.filter_sublist.map _).nodup hkeys
  have hperm : (ascending key (rows.filter q)).Perm ((ascending key rows).filter q) :=
    ascending_perm.trans (ascending_perm.filter q).symm
  apply hperm.eq_of_pairwise _ (ascending_strict hkeys')
    ((ascending_strict hkeys).sublist List.filter_sublist)
  intro r s _ _ hrs hsr
  exact absurd hsr (lt_asymm hrs)

/-- `ORDER BY key LIMIT limit + 1` behind a cursor, page after page, gives every row. -/
theorem follow_sorted {limit : ℕ} (hlimit : 1 ≤ limit) (hkeys : (rows.map key).Nodup)
    {fetch : Option κ → List ρ × Option κ}
    (hfetch : ∀ c, fetch c = cut key limit
      ((ascending key (rows.filter fun r => c.all fun c => decide (c < key r))).take (limit + 1)))
    {fuel : ℕ} (hfuel : rows.length < fuel) : follow fetch fuel none = some (ascending key rows) := by
  have hafter : ∀ (c : κ) (r : ρ), decide (c < key r) = true ↔ c < key r := fun _ _ => decide_eq_true_iff
  apply follow_ascending hlimit hafter (ascending_strict hkeys)
  · intro c
    rw [hfetch, cut_take, ascending_filter hkeys]
  · rwa [ascending_perm.length_eq]

end Sorted

end Keyset
