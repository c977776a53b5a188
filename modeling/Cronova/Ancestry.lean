import Mathlib.Data.List.Basic

/-! Stored parent links, whose nodes may be taken away.

A node is there or not, and one that is there names a parent or none. The parent that a node
names may be gone; the ancestors of the node end below it.
-/

set_option autoImplicit false

namespace Cronova.Ancestry

variable {K : Type}

/-- Whether a node is there, and the parent that it names. -/
abbrev Links (K : Type) := K → Option (Option K)

/-- From this link on, there are no more than so many nodes upwards. -/
def Shallow (links : Links K) : Nat → Option K → Prop
  | _, none => True
  | 0, some k => links k = none
  | n + 1, some k => ∀ up, links k = some up → Shallow links n up

variable {links after : Links K}

theorem Shallow.missing {k : K} (gone : links k = none) (n : Nat) : Shallow links n (some k) := by
  cases n with
  | zero => exact gone
  | succ n =>
    intro up there
    rw [gone] at there
    cases there

theorem Shallow.mono {m n : Nat} (le : m ≤ n) {link : Option K} (shallow : Shallow links m link) : Shallow links n link := by
  induction m generalizing n link with
  | zero =>
    cases link with
    | none => cases n <;> trivial
    | some k => exact .missing shallow n
  | succ m ih =>
    cases link with
    | none => cases n <;> trivial
    | some k =>
      cases n with
      | zero => omega
      | succ n => exact fun up there => ih (by omega) (shallow up there)

/-- Nodes that are named as parents may go, and no other node may come in their place. -/
theorem Shallow.stable {named : K → Prop} (above : ∀ k up, links k = some (some up) → named up)
    (kept : ∀ k, named k → after k = links k ∨ after k = none) {n : Nat} {link : Option K} (known : ∀ k, link = some k → named k)
    (shallow : Shallow links n link) : Shallow after n link := by
  induction n generalizing link with
  | zero =>
    cases link with
    | none => trivial
    | some k =>
      rcases kept k (known k rfl) with same | gone
      · exact same.trans shallow
      · exact gone
  | succ n ih =>
    cases link with
    | none => trivial
    | some k =>
      intro up there
      rcases kept k (known k rfl) with same | gone
      · rw [same] at there
        refine ih (fun k' named => ?_) (shallow up there)
        subst named
        exact above k k' there
      · rw [gone] at there
        cases there

/-- A chain upwards of nodes that are all there is no longer than the bound. -/
theorem Shallow.bounds {n : Nat} {k : K} {link : Option K} {up : List K} (there : links k = some link) (shallow : Shallow links n link)
    (present : ∀ a ∈ up, links a ≠ none) (chain : (k :: up).IsChain fun b a => links b = some (some a)) : up.length ≤ n := by
  induction up generalizing k n link with
  | nil => exact Nat.zero_le n
  | cons a up ih =>
    obtain ⟨named, rest⟩ := List.isChain_cons_cons.mp chain
    rw [there] at named
    cases named
    obtain ⟨above, lookup⟩ := Option.ne_none_iff_exists'.mp (present a (.head _))
    cases n with
    | zero =>
      rw [show links a = none from shallow] at lookup
      cases lookup
    | succ n =>
      have shorter := ih lookup (shallow above lookup) (fun b member => present b (.tail _ member)) rest
      exact Nat.succ_le_succ shorter

end Cronova.Ancestry
