import Mathlib.Algebra.BigOperators.Group.Finset.Basic
import Mathlib.Data.Finset.Dedup
import Mathlib.Logic.Relation

/-! Breadth-first search with a work list.

A node enters the closure once, and queues its successors then. Every round takes one node off
the queue, so the rounds that are needed are bounded by the edges. -/

set_option autoImplicit false

namespace Cronova

open Relation (ReflTransGen)

variable {N : Type} [DecidableEq N]

/-- The nodes found, given the queue and what has been found before. -/
def worklist (succ : N → List N) : Nat → List N → List N → List N
  | 0, _, closure => closure
  | _, [], closure => closure
  | rounds + 1, node :: queue, closure =>
    if node ∈ closure then worklist succ rounds queue closure
    else worklist succ rounds (queue ++ succ node) (closure ++ [node])

namespace Worklist

variable {succ : N → List N} {queue closure : List N}

/-- An edge of the graph. -/
def Edge (succ : N → List N) (a b : N) : Prop := b ∈ succ a

/-- The successors of the closure are in it, or wait in the queue. -/
def Closed (succ : N → List N) (queue closure : List N) : Prop :=
  ∀ a ∈ closure, ∀ b ∈ succ a, b ∈ closure ∨ b ∈ queue

/-- The rounds that are still to come, at most: `nodes` are those that have successors. -/
def pending (succ : N → List N) (nodes : Finset N) (queue closure : List N) : Nat :=
  queue.length + ∑ node ∈ nodes.filter (· ∉ closure), (succ node).length

omit [DecidableEq N] in
/-- Whatever is reached from the closure is in it, or is reached from the queue. -/
theorem Closed.reaches (closed : Closed succ queue closure) {a b : N} (found : a ∈ closure)
    (reached : ReflTransGen (Edge succ) a b) : b ∈ closure ∨ ∃ c ∈ queue, ReflTransGen (Edge succ) c b := by
  induction reached using ReflTransGen.head_induction_on with
  | refl => exact .inl found
  | head edge rest ih =>
    rcases closed _ found _ edge with inside | waits
    · exact ih inside
    · exact .inr ⟨_, waits, rest⟩

/-- A node that enters the closure trades its successors for their place in the queue. -/
theorem pending_enters {nodes : Finset N} (leaves : ∀ node ∉ nodes, succ node = []) {node : N} (new : node ∉ closure) :
    pending succ nodes (queue ++ succ node) (closure ++ [node]) + 1 = pending succ nodes (node :: queue) closure := by
  have split : ∑ n ∈ nodes.filter (· ∉ closure), (succ n).length =
      (succ node).length + ∑ n ∈ nodes.filter (· ∉ closure ++ [node]), (succ n).length := by
    have rest : nodes.filter (· ∉ closure ++ [node]) = (nodes.filter (· ∉ closure)).erase node := by
      ext n
      simp only [Finset.mem_filter, Finset.mem_erase, List.mem_append, List.mem_singleton, not_or]
      tauto
    rw [rest]
    by_cases inside : node ∈ nodes
    · exact (Finset.add_sum_erase _ _ (Finset.mem_filter.mpr ⟨inside, new⟩)).symm
    · have outside : node ∉ nodes.filter (· ∉ closure) := fun member => inside (Finset.mem_filter.mp member).1
      rw [Finset.erase_eq_of_notMem outside, leaves node inside]
      simp
  unfold pending
  rw [split, List.length_append, List.length_cons]
  omega

/-- The closure at the end is what can be reached. -/
theorem mem_worklist {nodes : Finset N} (leaves : ∀ node ∉ nodes, succ node = []) {rounds : Nat}
    (enough : pending succ nodes queue closure ≤ rounds) (closed : Closed succ queue closure) {b : N} :
    b ∈ worklist succ rounds queue closure ↔ b ∈ closure ∨ ∃ a ∈ queue, ReflTransGen (Edge succ) a b := by
  induction rounds generalizing queue closure with
  | zero =>
    have none : queue = [] := List.eq_nil_of_length_eq_zero (by unfold pending at enough; omega)
    subst none
    simp [worklist]
  | succ rounds ih =>
    cases queue with
    | nil => simp [worklist]
    | cons node queue =>
      rw [worklist]
      split
      · rename_i known
        have closed' : Closed succ queue closure := by
          intro a found b edge
          rcases closed a found b edge with inside | waits
          · exact .inl inside
          · rcases List.mem_cons.mp waits with rfl | later
            · exact .inl known
            · exact .inr later
        rw [ih (by simp only [pending, List.length_cons] at enough ⊢; omega) closed']
        constructor
        · rintro (inside | ⟨a, waits, reached⟩)
          · exact .inl inside
          · exact .inr ⟨a, .tail _ waits, reached⟩
        · rintro (inside | ⟨a, waits, reached⟩)
          · exact .inl inside
          · rcases List.mem_cons.mp waits with rfl | later
            · exact closed'.reaches known reached
            · exact .inr ⟨a, later, reached⟩
      · rename_i new
        have closed' : Closed succ (queue ++ succ node) (closure ++ [node]) := by
          intro a found b edge
          rcases List.mem_append.mp found with old | here
          · rcases closed a old b edge with inside | waits
            · exact .inl (List.mem_append_left _ inside)
            · rcases List.mem_cons.mp waits with rfl | later
              · exact .inl (List.mem_append_right _ (.head _))
              · exact .inr (List.mem_append_left _ later)
          · obtain rfl := List.mem_singleton.mp here
            exact .inr (List.mem_append_right _ edge)
        have fewer := @pending_enters _ _ succ queue _ _ leaves _ new
        rw [ih (by omega) closed']
        constructor
        · rintro (inside | ⟨a, waits, reached⟩)
          · rcases List.mem_append.mp inside with old | here
            · exact .inl old
            · obtain rfl := List.mem_singleton.mp here
              exact .inr ⟨b, .head _, .refl⟩
          · rcases List.mem_append.mp waits with later | edge
            · exact .inr ⟨a, .tail _ later, reached⟩
            · exact .inr ⟨node, .head _, .head edge reached⟩
        · rintro (inside | ⟨a, waits, reached⟩)
          · exact .inl (List.mem_append_left _ inside)
          · rcases List.mem_cons.mp waits with rfl | later
            · rcases reached.cases_head with rfl | ⟨next, edge, rest⟩
              · exact .inl (List.mem_append_right _ (.head _))
              · exact .inr ⟨next, List.mem_append_right _ edge, rest⟩
            · exact .inr ⟨a, List.mem_append_left _ later, reached⟩

end Worklist

end Cronova
