import Emis.Common.Errors
import Emis.Library.Search
import Emis.Library.Table

/-!
# Prerequisites that loop

`modules/catalog/domain/prerequisites.ts`.
-/

namespace Emis.Catalog

open Relation Transactions

/-- course id → the course ids it requires. -/
abbrev PrerequisiteGraph := List (Uuid × List Uuid)

/-- `existing.get(current) ?? []`. -/
def PrerequisiteGraph.get (graph : PrerequisiteGraph) (current : Uuid) : List Uuid :=
  ((graph.find? fun e => e.1 == current).map Prod.snd).getD []

/-- `graph.set(current, ids)`. -/
def PrerequisiteGraph.set (graph : PrerequisiteGraph) (current : Uuid) (ids : List Uuid) : PrerequisiteGraph :=
  if graph.any fun e => e.1 == current then changeWhere (fun e => e.1 == current) (fun e => (e.1, ids)) graph
  else graph ++ [(current, ids)]

/-- Rounds that are enough for the loop below: one for each edge, for each new
prerequisite, and a last one. -/
def rounds (existing : PrerequisiteGraph) (newPrerequisites : List Uuid) : ℕ :=
  newPrerequisites.length + Search.left existing.get (existing.map Prod.fst) [] + 1

/-- Whether giving `courseId` these `newPrerequisites` would create a loop. The stack is
filled and emptied at its end. -/
def wouldCreateCycle (existing : PrerequisiteGraph) (courseId : Uuid) (newPrerequisites : List Uuid) : Bool :=
  (Search.run existing.get courseId (rounds existing newPrerequisites) newPrerequisites.reverse []).getD false

/-- `a` requires `b`. -/
def Requires (graph : PrerequisiteGraph) (a b : Uuid) : Prop := b ∈ graph.get a

theorem get_eq_nil {graph : PrerequisiteGraph} {a : Uuid} (h : a ∉ graph.map Prod.fst) : graph.get a = [] := by
  have hnone : graph.find? (fun e => e.1 == a) = none := by
    refine List.find?_eq_none.2 fun e he => ?_
    simp only [beq_iff_eq]
    rintro rfl
    exact h (List.mem_map_of_mem he)
  rw [PrerequisiteGraph.get, hnone]
  rfl

theorem get_set (graph : PrerequisiteGraph) (a b : Uuid) (ids : List Uuid) :
    (graph.set a ids).get b = if b = a then ids else graph.get b := by
  rw [PrerequisiteGraph.set, PrerequisiteGraph.get, PrerequisiteGraph.get]
  split
  · rename_i hkey
    have hfind : (changeWhere (fun e => e.1 == a) (fun e => (e.1, ids)) graph).find? (fun e => e.1 == b) = _ :=
      find?_changeWhere fun _ => rfl
    rw [hfind]
    by_cases hba : b = a
    · subst hba
      obtain ⟨e, he⟩ : ∃ e, graph.find? (fun e => e.1 == b) = some e := by
        rw [← Option.isSome_iff_exists, List.find?_isSome]
        simpa using hkey
      have hb : e.1 = b := by simpa using List.find?_some he
      simp [he, hb]
    · rw [if_neg hba]
      cases he : graph.find? fun e => e.1 == b with
      | none => rfl
      | some e =>
          have hb : e.1 = b := by simpa using List.find?_some he
          simp [hb, hba]
  · rename_i hkey
    rw [List.find?_append]
    by_cases hba : b = a
    · subst hba
      have hnone : graph.find? (fun e => e.1 == b) = none := by
        refine List.find?_eq_none.2 fun e he hb => hkey ?_
        exact List.any_eq_true.2 ⟨e, he, hb⟩
      simp [hnone]
    · have hne : a ≠ b := fun h => hba h.symm
      simp [hba, hne]

/-- The loop ends on every graph, with cycles or without. -/
theorem wouldCreateCycle_ends (existing : PrerequisiteGraph) (courseId : Uuid) (newPrerequisites : List Uuid)
    {n : ℕ} (hn : rounds existing newPrerequisites ≤ n) :
    Search.run existing.get courseId n newPrerequisites.reverse [] =
      some (wouldCreateCycle existing courseId newPrerequisites) := by
  have hends : (Search.run existing.get courseId (rounds existing newPrerequisites)
      newPrerequisites.reverse []).isSome := by
    refine Search.run_ends (fun a ha => get_eq_nil ha) _ _ _ ?_
    rw [List.length_reverse, rounds]
    exact Nat.lt_succ_self _
  obtain ⟨b, hb⟩ := Option.isSome_iff_exists.1 hends
  obtain ⟨k, rfl⟩ := Nat.exists_eq_add_of_le hn
  rw [wouldCreateCycle, hb]
  exact Search.run_more hb k

/-- It finds exactly the new prerequisites that require the course already. -/
theorem wouldCreateCycle_iff {existing : PrerequisiteGraph} {courseId : Uuid} {newPrerequisites : List Uuid} :
    wouldCreateCycle existing courseId newPrerequisites = true ↔
      ∃ p ∈ newPrerequisites, ReflTransGen (Requires existing) p courseId := by
  have hends := wouldCreateCycle_ends existing courseId newPrerequisites (Nat.le_refl _)
  constructor
  · intro h
    rw [h] at hends
    obtain ⟨p, hp, hreach⟩ := Search.run_sound hends
    exact ⟨p, List.mem_reverse.1 hp, hreach⟩
  · rintro ⟨p, hp, hreach⟩
    cases hfound : wouldCreateCycle existing courseId newPrerequisites with
    | true => rfl
    | false =>
        rw [hfound] at hends
        exact (Search.run_complete hends p (List.mem_reverse.2 hp) hreach).elim

example : wouldCreateCycle [(1, [2]), (2, [3]), (4, [5]), (5, [4])] 3 [4, 1] = true := by decide

end Emis.Catalog
