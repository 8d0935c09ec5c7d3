import Emis.Billing.FeesService
import Mathlib.Data.Rat.Floor

/-!
# A total split into instalments

`buildInstallments` for the prices and the plans that the requests let in.
-/

namespace Emis.Billing

/-- A fee that the schema accepts. -/
def FeeComponent.ok (c : FeeComponent) : Prop :=
  2 ≤ c.name.length ∧ c.name.length ≤ 60 ∧ 1 ≤ c.amount ∧ c.amount ≤ MAX_MINOR_UNITS

/-- The fees of a `createFeeStructureRequestSchema` body. -/
structure CreateFeeStructureValues where
  components : List FeeComponent
  count_ok : 1 ≤ components.length ∧ components.length ≤ 10
  each_ok : ∀ c ∈ components, c.ok

/-- What `createStructure` stores as the total. -/
def CreateFeeStructureValues.total (fees : CreateFeeStructureValues) : ℤ :=
  (fees.components.map FeeComponent.amount).sum

/-! ## Sums -/

section Sums

variable {xs : List ℤ}

/-- A running sum of what is not negative stays below the whole. -/
theorem mem_scanl_add (hxs : ∀ x ∈ xs, 0 ≤ x) {a y : ℤ} (hy : y ∈ xs.scanl (· + ·) a) :
    a ≤ y ∧ y ≤ a + xs.sum := by
  induction xs generalizing a with
  | nil =>
      obtain rfl : y = a := by simpa using hy
      simp
  | cons x xs ih =>
      have hx := hxs x List.mem_cons_self
      have hrest : ∀ z ∈ xs, 0 ≤ z := fun z hz => hxs z (List.mem_cons_of_mem _ hz)
      have hsum := List.sum_nonneg hrest
      rw [List.scanl_cons] at hy
      rw [List.sum_cons]
      rcases List.mem_cons.1 hy with rfl | hy
      · omega
      · have hrange := ih hrest hy
        omega

theorem sum_le_card {bound : ℤ} (hxs : ∀ x ∈ xs, x ≤ bound) : xs.sum ≤ xs.length * bound := by
  have hsum := List.sum_le_card_nsmul xs bound hxs
  simpa using hsum

end Sums

theorem CreateFeeStructureValues.total_range (fees : CreateFeeStructureValues) :
    1 ≤ fees.total ∧ fees.total ≤ 10 * MAX_MINOR_UNITS := by
  have hnonneg : ∀ x ∈ fees.components.map FeeComponent.amount, 0 ≤ x := by
    intro x hx
    obtain ⟨c, hc, rfl⟩ := List.mem_map.1 hx
    have hmin := (fees.each_ok c hc).2.2.1
    omega
  obtain ⟨c, hc⟩ := List.exists_mem_of_length_pos fees.count_ok.1
  have hone := List.single_le_sum hnonneg c.amount (List.mem_map_of_mem hc)
  have hmin := (fees.each_ok c hc).2.2.1
  have hmax : fees.total ≤ (fees.components.map FeeComponent.amount).length * MAX_MINOR_UNITS := by
    apply sum_le_card
    intro x hx
    obtain ⟨c, hc, rfl⟩ := List.mem_map.1 hx
    exact (fees.each_ok c hc).2.2.2
  rw [List.length_map] at hmax
  have hcount := fees.count_ok.2
  rw [total] at hmax ⊢
  simp only [MAX_MINOR_UNITS] at hmax ⊢
  omega

/-! ## Shares -/

/-- An instalment's share of the total, rounded down. -/
def share (total : ℤ) (p : PlanInstallment) : ℤ := ⌊((total * p.shareBp : ℤ) : ℚ) / 10000⌋

section Shares

variable {total : ℤ} {plan : List PlanInstallment}

theorem share_eq (total : ℤ) (p : PlanInstallment) : share total p = total * p.shareBp / 10000 :=
  Rat.floor_intCast_div_natCast _ 10000

theorem share_nonneg (htotal : 0 ≤ total) (p : PlanInstallment) : 0 ≤ share total p := by
  have hprod : 0 ≤ total * (p.shareBp : ℤ) := Int.mul_nonneg htotal (Int.natCast_nonneg _)
  rw [share_eq]
  omega

/-- Rounding down loses less than one for each share. -/
theorem sum_share (total : ℤ) (plan : List PlanInstallment) :
    10000 * (plan.map (share total)).sum ≤
        total * ((plan.map PlanInstallment.shareBp).sum : ℤ) ∧
      total * ((plan.map PlanInstallment.shareBp).sum : ℤ) ≤
        10000 * (plan.map (share total)).sum + 9999 * plan.length := by
  induction plan with
  | nil => simp
  | cons p plan ih =>
      have hshare := share_eq total p
      simp only [List.map_cons, List.sum_cons, List.length_cons, Nat.cast_add, Nat.cast_one, Int.mul_add]
      omega

theorem map_share (htotal : 0 ≤ total) (plan : List PlanInstallment) :
    (plan.map PlanInstallment.shareBp).map (fun (bp : ℕ) => (total * (bp : ℤ)).tdiv 10000) =
      plan.map (share total) := by
  rw [List.map_map]
  apply List.map_congr_left
  intro p _
  rw [share_eq, Function.comp_apply,
    Int.tdiv_eq_ediv_of_nonneg (Int.mul_nonneg htotal (Int.natCast_nonneg _))]

/-- What rounding down leaves over. -/
def leftover (total : ℤ) (plan : List PlanInstallment) : ℤ := total - (plan.map (share total)).sum

theorem leftover_range (hshares : (plan.map PlanInstallment.shareBp).sum = 10000)
    (hcount : 0 < plan.length) : 0 ≤ leftover total plan ∧ leftover total plan < plan.length := by
  have hsum := sum_share total plan
  rw [hshares] at hsum
  rw [leftover]
  push_cast at hsum
  omega

end Shares

/-! ## The instalments -/

/-- The amounts: the shares, with what is left over on the last. -/
def amounts (total : ℤ) (plan : List PlanInstallment) : List ℤ :=
  (plan.map (share total)).dropLast ++ [(plan.map (share total)).getLastD 0 + leftover total plan]

section Parts

variable {total : ℤ} {plan : List PlanInstallment}

theorem length_amounts (hcount : 0 < plan.length) : (amounts total plan).length = plan.length := by
  simp only [amounts, List.length_append, List.length_dropLast, List.length_map, List.length_singleton]
  omega

theorem buildInstallments_eq (htotal : 0 ≤ total) (hcount : 0 < plan.length)
    (hshares : (plan.map PlanInstallment.shareBp).sum = 10000) (issueDate : Day) :
    buildInstallments total plan issueDate = .ok (plan.mapIdx fun i p =>
      ⟨i + 1, addDays issueDate p.dueOffsetDays, (amounts total plan).getD i 0⟩) := by
  have hsplit : splitByBasisPoints total (plan.map PlanInstallment.shareBp) =
      .ok (amounts total plan) := by
    rw [splitByBasisPoints, if_neg (by rw [List.length_map]; omega), if_neg (not_not.2 hshares),
      map_share htotal]
    rfl
  rw [buildInstallments, hsplit]
  rfl

theorem map_amount_mapIdx (hcount : 0 < plan.length) (issueDate : Day) :
    (plan.mapIdx fun i p => (⟨i + 1, addDays issueDate p.dueOffsetDays,
      (amounts total plan).getD i 0⟩ : InstallmentPart)).map InstallmentPart.amount =
        amounts total plan := by
  apply List.ext_getElem
  · simp [length_amounts hcount]
  · intro i _ hi
    simp [List.getElem?_eq_getElem hi]

theorem sum_amounts (hcount : 0 < plan.length) : (amounts total plan).sum = total := by
  have hne : plan.map (share total) ≠ [] := by
    rw [Ne, List.map_eq_nil_iff]
    exact List.ne_nil_of_length_pos hcount
  have hparts : (plan.map (share total)).dropLast ++ [(plan.map (share total)).getLastD 0] =
      plan.map (share total) := by
    rw [List.getLastD_eq_getLast?, List.getLast?_eq_some_getLast hne, Option.getD_some]
    exact List.dropLast_append_getLast hne
  have hsum := congrArg List.sum hparts
  rw [List.sum_append, List.sum_singleton] at hsum
  rw [amounts, List.sum_append, List.sum_singleton, leftover]
  omega

theorem amounts_nonneg (htotal : 0 ≤ total) (hshares : (plan.map PlanInstallment.shareBp).sum = 10000)
    (hcount : 0 < plan.length) {x : ℤ} (hx : x ∈ amounts total plan) : 0 ≤ x := by
  have hfloors : ∀ y ∈ plan.map (share total), 0 ≤ y := by
    intro y hy
    obtain ⟨p, -, rfl⟩ := List.mem_map.1 hy
    exact share_nonneg htotal p
  rcases List.mem_append.1 hx with hx | hx
  · exact hfloors x ((List.dropLast_sublist _).subset hx)
  · obtain rfl := List.mem_singleton.1 hx
    have hrest := (@leftover_range total plan hshares hcount).1
    have hlast : 0 ≤ (plan.map (share total)).getLastD 0 := by
      rw [List.getLastD_eq_getLast?]
      cases hlast : (plan.map (share total)).getLast? with
      | none => exact le_rfl
      | some y => exact hfloors y (List.mem_of_getLast? hlast)
    omega

end Parts

/-! ## Exact numbers -/

/-- `Number.isSafeInteger`. -/
def isSafeInteger (x : ℤ) : Prop := -9007199254740991 ≤ x ∧ x ≤ 9007199254740991

/-- Every number that goes into an invoice's instalments: the running sums of the
fees, of the shares and of the parts, the parts, what is left over and the part it
goes to, the numbers of the instalments and the days of the month they are set to. -/
def numbersInvolved (fees : CreateFeeStructureValues) (plan : List PlanInstallment) (issueDate : Day) :
    List ℤ :=
  (fees.components.map FeeComponent.amount).scanl (· + ·) 0 ++
    (plan.map fun p => (p.shareBp : ℤ)).scanl (· + ·) 0 ++
    (plan.map (share fees.total)).scanl (· + ·) 0 ++
    plan.map (share fees.total) ++
    [leftover fees.total plan] ++
    amounts fees.total plan ++
    plan.mapIdx (fun i _ => (i : ℤ) + 1) ++
    plan.map fun p => (civilOf issueDate).day + (p.dueOffsetDays : ℤ)

theorem day_le (date : Day) : (civilOf date).day ≤ 146097 := by
  have hdoe : ((date + 719468) - (date + 719468) / 146097 * 146097).toNat ≤ 146096 := by
    simp only [Day] at *
    omega
  simp only [civilOf]
  omega

/-- The sum of what is not negative is at least each of them. -/
theorem le_sum {xs : List ℤ} (hxs : ∀ x ∈ xs, 0 ≤ x) {x : ℤ} (hx : x ∈ xs) : 0 ≤ x ∧ x ≤ xs.sum :=
  ⟨hxs x hx, List.single_le_sum hxs x hx⟩

theorem shares_of_plan (plan : CreatePaymentPlanValues) :
    (plan.installments.map PlanInstallment.shareBp).sum = 10000 ∧
      plan.installments.Pairwise fun a b => a.dueOffsetDays ≤ b.dueOffsetDays := by
  have hissues := plan.planIsValid
  rw [planIssues, List.append_eq_nil_iff] at hissues
  constructor
  · by_contra hne
    simp [hne] at hissues
  · have hchain : plan.installments.IsChain fun a b => a.dueOffsetDays ≤ b.dueOffsetDays := by
      by_contra hne
      simp [hne] at hissues
    have htrans : IsTrans PlanInstallment fun a b => a.dueOffsetDays ≤ b.dueOffsetDays :=
      ⟨fun _ _ _ => le_trans⟩
    exact hchain.pairwise

theorem numbersInvolved_safe (fees : CreateFeeStructureValues) (plan : CreatePaymentPlanValues)
    (issueDate : Day) {x : ℤ} (hx : x ∈ numbersInvolved fees plan.installments issueDate) :
    isSafeInteger x := by
  obtain ⟨hpos, hmax⟩ := fees.total_range
  obtain ⟨hshares, -⟩ := shares_of_plan plan
  obtain ⟨hcount, hcount'⟩ := plan.count_ok
  simp only [MAX_MINOR_UNITS] at hmax
  have hfees : ∀ y ∈ fees.components.map FeeComponent.amount, 0 ≤ y := by
    intro y hy
    obtain ⟨c, hc, rfl⟩ := List.mem_map.1 hy
    have hmin := (fees.each_ok c hc).2.2.1
    omega
  have hbps : ∀ y ∈ plan.installments.map fun p => (p.shareBp : ℤ), 0 ≤ y := by
    intro y hy
    obtain ⟨p, -, rfl⟩ := List.mem_map.1 hy
    exact Int.natCast_nonneg _
  have hfloors : ∀ y ∈ plan.installments.map (share fees.total), 0 ≤ y := by
    intro y hy
    obtain ⟨p, -, rfl⟩ := List.mem_map.1 hy
    exact share_nonneg (by omega) p
  have hrest := @leftover_range fees.total plan.installments hshares hcount
  have hfloorSum : (plan.installments.map (share fees.total)).sum ≤ fees.total := by
    rw [leftover] at hrest
    omega
  have hbpSum : (plan.installments.map fun p => (p.shareBp : ℤ)).sum = 10000 := by
    have hcast := map_list_sum (Nat.castAddMonoidHom ℤ) (plan.installments.map PlanInstallment.shareBp)
    rw [hshares, List.map_map] at hcast
    exact hcast.symm
  have hsafe : ∀ y : ℤ, 0 ≤ y → y ≤ 10000000000000 → isSafeInteger y := by
    intro y hlow hhigh
    constructor <;> omega
  simp only [numbersInvolved, List.mem_append, List.mem_singleton] at hx
  rcases hx with ((((((hx | hx) | hx) | hx) | hx) | hx) | hx) | hx
  · have hrange := mem_scanl_add hfees hx
    change 0 ≤ x ∧ x ≤ 0 + fees.total at hrange
    exact hsafe x (by omega) (by omega)
  · have hrange := mem_scanl_add hbps hx
    exact hsafe x (by omega) (by omega)
  · have hrange := mem_scanl_add hfloors hx
    exact hsafe x (by omega) (by omega)
  · have hrange := le_sum hfloors hx
    exact hsafe x (by omega) (by omega)
  · exact hsafe x (by omega) (by omega)
  · have hrange := le_sum (fun y => amounts_nonneg (by omega) hshares hcount) hx
    rw [sum_amounts hcount] at hrange
    exact hsafe x (by omega) (by omega)
  · obtain ⟨i, hi, rfl⟩ := List.mem_mapIdx.1 hx
    exact hsafe _ (by omega) (by omega)
  · obtain ⟨p, hp, rfl⟩ := List.mem_map.1 hx
    have hday := day_le issueDate
    have hoffset := (plan.each_ok p hp).2.2
    exact hsafe _ (by omega) (by omega)

/-- One instalment for each part of the plan, numbered from 1 and due by its offset;
all but the last have their share rounded down, the last also what is left over,
which is less than one for each part; nothing is lost. -/
theorem buildInstallments_exact (fees : CreateFeeStructureValues) (plan : CreatePaymentPlanValues)
    (issueDate : Day) :
    ∃ parts, buildInstallments fees.total plan.installments issueDate = .ok parts ∧
      parts.map InstallmentPart.sequence = List.range' 1 plan.installments.length ∧
      (∀ p ∈ parts, 0 ≤ p.amount) ∧
      (parts.map InstallmentPart.amount).sum = fees.total ∧
      (parts.map InstallmentPart.amount).dropLast =
        plan.installments.dropLast.map (share fees.total) ∧
      (∃ rest : ℤ, 0 ≤ rest ∧ rest < plan.installments.length ∧
        (parts.map InstallmentPart.amount).getLast? =
          plan.installments.getLast?.map fun p => share fees.total p + rest) ∧
      parts.map InstallmentPart.dueDate =
        plan.installments.map (fun p => addDays issueDate p.dueOffsetDays) ∧
      (parts.map InstallmentPart.dueDate).Pairwise (· ≤ ·) ∧
      ∀ x ∈ numbersInvolved fees plan.installments issueDate, isSafeInteger x := by
  obtain ⟨hpos, -⟩ := fees.total_range
  obtain ⟨hshares, hoffsets⟩ := shares_of_plan plan
  have hcount := plan.count_ok.1
  have hdue : (plan.installments.mapIdx fun i p => (⟨i + 1, addDays issueDate p.dueOffsetDays,
      (amounts fees.total plan.installments).getD i 0⟩ : InstallmentPart)).map InstallmentPart.dueDate =
        plan.installments.map fun p => addDays issueDate p.dueOffsetDays := by
    apply List.ext_getElem <;> simp
  refine ⟨_, buildInstallments_eq (by omega) hcount hshares issueDate, ?_, ?_, ?_, ?_, ?_, hdue, ?_,
    fun x => numbersInvolved_safe fees plan issueDate⟩
  · apply List.ext_getElem
    · simp
    · intro i _ _
      simp [Nat.add_comm]
  · intro p hp
    apply amounts_nonneg (show 0 ≤ fees.total by omega) hshares hcount
    rw [← map_amount_mapIdx hcount issueDate]
    exact List.mem_map_of_mem hp
  · rw [map_amount_mapIdx hcount, sum_amounts hcount]
  · rw [map_amount_mapIdx hcount, amounts, List.dropLast_concat, List.map_dropLast]
  · obtain ⟨hleast, hless⟩ := @leftover_range fees.total plan.installments hshares hcount
    refine ⟨leftover fees.total plan.installments, hleast, hless, ?_⟩
    rw [map_amount_mapIdx hcount, amounts, List.getLast?_concat]
    have hne := List.ne_nil_of_length_pos hcount
    rw [List.getLastD_eq_getLast?, List.getLast?_map, List.getLast?_eq_some_getLast hne]
    rfl
  · rw [hdue, List.pairwise_map]
    apply hoffsets.imp
    intro a b hab
    simp only [addDays, Day] at *
    omega

/-- A third each of 100.00. -/
example : buildInstallments 10000 [⟨3333, 0⟩, ⟨3333, 30⟩, ⟨3334, 60⟩] 20710 =
    .ok [⟨1, 20710, 3333⟩, ⟨2, 20740, 3333⟩, ⟨3, 20770, 3334⟩] := by
  decide

end Emis.Billing
