import Emis.Billing.Schema

/-!
# How money is split and spread

`domain/money-flow.ts` with `splitByBasisPoints` of `contracts/money.ts`.
-/

namespace Emis.Billing

open Transactions

/-- Parts rounded down, with the leftover on the last. -/
def splitByBasisPoints (total : ℤ) (shares : List ℕ) : Except Error (List ℤ) :=
  if shares.length = 0 then .error (.internal "Need at least one share")
  else if shares.sum ≠ 10000 then .error (.internal "Shares must add up to 10000 basis points")
  else
    let parts := shares.map fun (bp : ℕ) => (total * (bp : ℤ)).tdiv 10000
    let allocated := parts.sum
    .ok (parts.dropLast ++ [parts.getLastD 0 + (total - allocated)])

structure InstallmentPart where
  sequence : ℕ
  dueDate : Day
  amount : ℤ
  deriving DecidableEq, Repr

def buildInstallments (total : ℤ) (plan : List PlanInstallment) (issueDate : Day) :
    Except Error (List InstallmentPart) := do
  let amounts ← splitByBasisPoints total (plan.map PlanInstallment.shareBp)
  return plan.mapIdx fun i p =>
    { sequence := i + 1
      dueDate := addDays issueDate p.dueOffsetDays
      amount := amounts.getD i 0 }

def owed (i : InstallmentRow) : ℤ := i.amount - i.paidAmount

def byDueDate (a b : InstallmentRow) : Prop :=
  a.dueDate < b.dueDate ∨ a.dueDate = b.dueDate ∧ a.sequence ≤ b.sequence

instance : DecidableRel byDueDate := fun a b => by
  unfold byDueDate
  infer_instance

/-- The loop of `allocatePayment` and `applyDiscount`: each instalment in turn
takes up to what it owes. What every instalment took, and what is left. -/
def spread : ℤ → List InstallmentRow → List (InstallmentRow × ℤ) × ℤ
  | left, [] => ([], left)
  | left, i :: rest =>
      if left = 0 then ([], left)
      else
        let take := min left (owed i)
        if 0 < take then
          let (taken, left) := spread (left - take) rest
          ((i, take) :: taken, left)
        else spread left rest

structure Allocation where
  installmentId : Uuid
  amount : ℤ
  deriving DecidableEq, Repr

/-- Oldest due first; what is left over is the remainder. -/
def allocatePayment (installments : List InstallmentRow) (amount : ℤ) : List Allocation × ℤ :=
  let (taken, remainder) := spread amount (installments.insertionSort byDueDate)
  (taken.map fun t => ⟨t.1.id, t.2⟩, remainder)

structure Cut where
  installmentId : Uuid
  newAmount : ℤ
  deriving DecidableEq, Repr

/-- Latest due first; the new amount of every instalment that is cut. -/
def applyDiscount (installments : List InstallmentRow) (amount : ℤ) : Except Error (List Cut) :=
  let (taken, left) := spread amount (installments.insertionSort byDueDate).reverse
  if 0 < left then .error (.internal "Discount is larger than what is unpaid")
  else .ok (taken.map fun t => ⟨t.1.id, t.1.amount - t.2⟩)

def discountAmount (kind : DiscountKind) (value currentTotal : ℤ) : ℤ :=
  match kind with
  | .fixed => value
  | .percent => (currentTotal * value).tdiv 10000

def invoiceStatusFor (total paid : ℤ) : InvoiceStatus :=
  if paid ≥ total then .paid else if paid > 0 then .partiallyPaid else .issued

inductive InstallmentStatus where
  | paid
  | partially
  | due
  | overdue
  deriving DecidableEq, Repr

def installmentStatusFor (i : InstallmentRow) (today : Day) : InstallmentStatus :=
  if i.paidAmount ≥ i.amount then .paid
  else if i.dueDate < today then .overdue
  else if i.paidAmount > 0 then .partially else .due

/-! ## Splitting -/

theorem sum_floor_le (total : ℤ) (shares : List ℕ) (htotal : 0 ≤ total) :
    10000 * (shares.map fun (bp : ℕ) => (total * (bp : ℤ)).tdiv 10000).sum ≤ total * (shares.sum : ℤ) := by
  induction shares with
  | nil => simp
  | cons bp shares ih =>
      have hprod : 0 ≤ total * (bp : ℤ) := Int.mul_nonneg htotal (Int.natCast_nonneg bp)
      have hfloor : 10000 * (total * (bp : ℤ)).tdiv 10000 ≤ total * (bp : ℤ) := by
        rw [Int.tdiv_eq_ediv_of_nonneg hprod]
        omega
      rw [List.map_cons, List.sum_cons, List.sum_cons, Nat.cast_add, Int.mul_add, Int.mul_add]
      omega

/-- The parts of a split are as many as the shares, none is negative, and they
add up to the total. -/
theorem splitByBasisPoints_ok {total : ℤ} {shares : List ℕ} {parts : List ℤ} (htotal : 0 ≤ total)
    (h : splitByBasisPoints total shares = .ok parts) :
    parts.length = shares.length ∧ parts.sum = total ∧ ∀ x ∈ parts, 0 ≤ x := by
  unfold splitByBasisPoints at h
  split at h
  · simp at h
  rename_i hlen
  split at h
  · simp at h
  rename_i hsum
  obtain rfl := Except.ok.inj h
  set floors := shares.map fun (bp : ℕ) => (total * (bp : ℤ)).tdiv 10000 with hfloors
  have hfloor_nonneg : ∀ x ∈ floors, 0 ≤ x := by
    intro x hx
    obtain ⟨bp, -, rfl⟩ := List.mem_map.1 hx
    have hprod : 0 ≤ total * (bp : ℤ) := Int.mul_nonneg htotal (Int.natCast_nonneg bp)
    exact Int.tdiv_nonneg hprod (by decide)
  have hle : floors.sum ≤ total := by
    have hfloor := sum_floor_le total shares htotal
    have hshares : (shares.sum : ℤ) = 10000 := by exact_mod_cast not_not.1 hsum
    rw [hshares] at hfloor
    rw [← hfloors] at hfloor
    omega
  have hne : floors ≠ [] := fun hnil => hlen (by simpa [hfloors] using hnil)
  have hparts : floors.dropLast ++ [floors.getLastD 0] = floors := by
    rw [List.getLastD_eq_getLast?, List.getLast?_eq_some_getLast hne, Option.getD_some]
    exact List.dropLast_append_getLast hne
  have hlast : 0 ≤ floors.getLastD 0 := by
    apply hfloor_nonneg
    rw [← hparts]
    simp
  refine ⟨?_, ?_, ?_⟩
  · have hpos := List.length_pos_iff.2 hne
    have hlength : floors.length = shares.length := by simp [hfloors]
    simp only [List.length_append, List.length_dropLast, List.length_singleton]
    omega
  · have hsum := congrArg List.sum hparts
    rw [List.sum_append, List.sum_singleton] at hsum ⊢
    omega
  · intro x hx
    rcases List.mem_append.1 hx with hx | hx
    · exact hfloor_nonneg x ((List.dropLast_sublist _).subset hx)
    · rw [List.mem_singleton.1 hx]
      omega

theorem buildInstallments_ok {total : ℤ} {plan : List PlanInstallment} {issueDate : Day}
    {parts : List InstallmentPart} (htotal : 0 ≤ total)
    (h : buildInstallments total plan issueDate = .ok parts) :
    (parts.map InstallmentPart.amount).sum = total ∧ ∀ p ∈ parts, 0 ≤ p.amount := by
  unfold buildInstallments at h
  cases hsplit : splitByBasisPoints total (plan.map PlanInstallment.shareBp) with
  | error e => simp [hsplit, bind, Except.bind] at h
  | ok amounts =>
      obtain ⟨hlen, hsum, hnonneg⟩ := splitByBasisPoints_ok htotal hsplit
      simp only [hsplit, bind, Except.bind, pure, Except.pure] at h
      obtain rfl := Except.ok.inj h
      have hamounts : (plan.mapIdx fun i p => (⟨i + 1, addDays issueDate p.dueOffsetDays,
          amounts.getD i 0⟩ : InstallmentPart)).map InstallmentPart.amount = amounts := by
        apply List.ext_getElem
        · simp [hlen]
        · intro i hi hi'
          simp [List.getElem?_eq_getElem hi']
      refine ⟨by rw [hamounts, hsum], fun p hp => hnonneg _ ?_⟩
      rw [← hamounts]
      exact List.mem_map_of_mem hp

/-! ## Spreading -/

/-- What `spread` takes: from rows of the table, each at most what it owes, and
in all what is no longer left. -/
theorem spread_spec {left : ℤ} {rows : List InstallmentRow} (hleft : 0 ≤ left) :
    (∀ t ∈ (spread left rows).1, t.1 ∈ rows ∧ 0 < t.2 ∧ t.2 ≤ owed t.1) ∧
      ((spread left rows).1.map fun t => t.1).Sublist rows ∧
      ((spread left rows).1.map Prod.snd).sum + (spread left rows).2 = left ∧
      0 ≤ (spread left rows).2 := by
  induction rows generalizing left with
  | nil => simpa [spread] using hleft
  | cons i rows ih =>
      rw [spread]
      dsimp only
      split
      · simpa using hleft
      · split
        · rename_i htake
          have hrest : 0 ≤ left - min left (owed i) := by omega
          obtain ⟨hmem, hsub, hsum, hpos⟩ := ih hrest
          refine ⟨?_, ?_, ?_, hpos⟩
          · intro t ht
            rcases List.mem_cons.1 ht with rfl | ht
            · exact ⟨List.mem_cons_self, htake, min_le_right _ _⟩
            · obtain ⟨hrow, hrange⟩ := hmem t ht
              exact ⟨List.mem_cons_of_mem _ hrow, hrange⟩
          · exact hsub.cons_cons i
          · simp only [List.map_cons, List.sum_cons]
            omega
        · obtain ⟨hmem, hsub, hsum, hpos⟩ := ih hleft
          refine ⟨fun t ht => ?_, hsub.cons i, hsum, hpos⟩
          obtain ⟨hrow, hrange⟩ := hmem t ht
          exact ⟨List.mem_cons_of_mem _ hrow, hrange⟩

end Emis.Billing
