import Mathlib.Data.Set.Basic
import Mathlib.Logic.Relation

/-! Depth-first sweeps of a graph.

A sweep takes a node that is alive, marks it, and sweeps its successors one after the other, each
among the nodes that are still alive. What it marks is what the node reaches along nodes that
were alive when it began.
-/

set_option autoImplicit false

namespace Cronova.Sweep

open Relation (ReflTransGen)

variable {N : Type} {next next' : N → Set N} {alive alive' marked handled : Set N} {root c : N}

/-- An edge between nodes that are alive. -/
def Edge (next : N → Set N) (alive : Set N) (a b : N) : Prop := a ∈ alive ∧ b ∈ alive ∧ b ∈ next a

/-- What the root reaches along nodes that are alive. -/
def reach (next : N → Set N) (alive : Set N) (root : N) : Set N := {b | root ∈ alive ∧ ReflTransGen (Edge next alive) root b}

theorem reach_dead (dead : root ∉ alive) : reach next alive root = ∅ :=
  Set.eq_empty_of_forall_notMem fun _ reached => dead reached.1

theorem root_mem_reach (live : root ∈ alive) : root ∈ reach next alive root := ⟨live, .refl⟩

theorem reach_alive : reach next alive root ⊆ alive := by
  rintro b ⟨live, reached⟩
  cases reached with
  | refl => exact live
  | tail _ edge => exact edge.2.1

theorem reach_next {a b : N} (reached : a ∈ reach next alive root) (edge : Edge next alive a b) : b ∈ reach next alive root :=
  ⟨reached.1, reached.2.tail edge⟩

/-- Fewer nodes that are alive, with no more successors. -/
theorem reach_mono (fewer : alive' ⊆ alive) (less : ∀ a ∈ alive', next' a ⊆ next a) :
    reach next' alive' root ⊆ reach next alive root := by
  rintro b ⟨live, reached⟩
  have kept (x y : N) (edge : Edge next' alive' x y) : Edge next alive x y :=
    ⟨fewer edge.1, fewer edge.2.1, less x edge.1 edge.2.2⟩
  exact ⟨fewer live, ReflTransGen.mono kept root b reached⟩

/-- A sweep of the root that has marked some nodes, with some successors of the root handled. -/
structure Underway (next : N → Set N) (alive : Set N) (root : N) (handled marked : Set N) : Prop where
  taken : root ∈ marked
  within : marked ⊆ reach next alive root
  closed : ∀ a ∈ marked, a ≠ root → ∀ b, Edge next alive a b → b ∈ marked
  handled : ∀ b ∈ handled, b ∈ alive → b ∈ marked

namespace Underway

theorem start (live : root ∈ alive) : Underway next alive root ∅ {root} where
  taken := rfl
  within := by
    rintro b rfl
    exact root_mem_reach live
  closed a member apart := absurd member apart
  handled b none := none.elim

/-- The root itself is no successor that is alive any more. -/
theorem live (underway : Underway next alive root handled marked) : root ∈ alive :=
  reach_alive (underway.within underway.taken)

/-- A successor of the root is swept among the nodes that are left. -/
theorem visit (underway : Underway next alive root handled marked) (child : c ∈ next root)
    (same : ∀ a ∈ alive \ marked, next' a = next a) :
    Underway next alive root (insert c handled) (marked ∪ reach next' (alive \ marked) c) where
  taken := .inl underway.taken
  within := by
    apply Set.union_subset underway.within
    rintro b reached
    have first : c ∈ reach next alive root :=
      reach_next (root_mem_reach underway.live) ⟨underway.live, reached.1.1, child⟩
    have onward := reach_mono (fun _ member => member.1) (fun a left => (same a left).subset) reached
    exact ⟨underway.live, first.2.trans onward.2⟩
  closed := by
    rintro a (old | reached) apart b edge
    · exact .inl (underway.closed a old apart b edge)
    · by_cases before : b ∈ marked
      · exact .inl before
      · have source := reach_alive reached
        exact .inr (reach_next reached ⟨source, ⟨edge.2.1, before⟩, (same a source).symm ▸ edge.2.2⟩)
  handled := by
    rintro b (rfl | old) live
    · by_cases before : b ∈ marked
      · exact .inl before
      · exact .inr (root_mem_reach ⟨live, before⟩)
    · exact .inl (underway.handled b old live)

/-- Once every successor of the root is handled, what is marked is what the root reaches. -/
theorem finish (underway : Underway next alive root handled marked) (all : next root ⊆ handled) :
    marked = reach next alive root := by
  apply Set.Subset.antisymm underway.within
  rintro b ⟨_, reached⟩
  induction reached with
  | refl => exact underway.taken
  | @tail x y _ edge ih =>
    by_cases own : x = root
    · subst own
      exact underway.handled y (all edge.2.2) edge.2.1
    · exact underway.closed x ih own y edge

end Underway

end Cronova.Sweep
