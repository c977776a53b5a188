import Cronova.Auth.Accounting
import Cronova.Process.Recording

/-! Sessions: whoever is let in by a cookie has logged in, and nothing has ended the session since.

The store remembers the sessions that stand, whoever acts in between. A password that is changed while a login is
under way does not stop that login; its session is then opened after the revocation.
-/

set_option autoImplicit false

namespace Cronova.Auth

open Calendar (Time)
open Process
open Store.DB (fmtTime)

variable {env : Env} {p : State}

/-- The rule of invariants: what every statement keeps, whoever issues it, holds of the store and the history. -/
theorem Reached.invariant {k : World → List Entry → Prop} (init : k {} [])
    (keeps : ∀ w history request o a, k w history → k (w.answer a o).2 (history ++ [(request, ⟨o, (w.answer a o).1⟩)]))
    (reached : Reached env p) : k p.state p.history := by
  apply System.Reaches.invariant (k := fun p => k p.state p.history) reached init
  intro p move kept _
  generalize after : (server env).step p move = q
  have moved := after ▸ (server env).moved p move
  cases moved with
  | performs thread performed =>
    cases performed
    exact keeps _ _ _ _ _ kept
  | _ => exact kept

/-! ### Accounts -/

/-- An account that a statement has answered with. -/
def answered : Issued statements → Option Account
  | ⟨.getUserByUsername _, .ok a⟩ | ⟨.getUserByID _, .ok a⟩ => some a
  | _ => none

/-- The rows of one account, at whatever time. -/
def Account.Same (a b : Account) : Prop := a.id = b.id → a.username = b.username ∧ a.role = b.role

/-- No id is given twice, and an account keeps its name and its role. -/
structure AccountsKept (w : World) (history : List Entry) : Prop where
  fresh : ∀ a ∈ w.users, a.id < w.nextUser
  distinct : ∀ a ∈ w.users, ∀ b ∈ w.users, a.Same b
  given : ∀ e ∈ history, ∀ a ∈ answered e.2, a.id < w.nextUser ∧ ∀ b ∈ w.users, b.Same a
  same : ∀ e ∈ history, ∀ a ∈ answered e.2, ∀ e' ∈ history, ∀ b ∈ answered e'.2, a.Same b

theorem AccountsKept.step {w v : World} {history : List Entry} (kept : AccountsKept w history)
    (next : w.nextUser ≤ v.nextUser)
    (users : ∀ a ∈ v.users, (∃ b ∈ w.users, b.id = a.id ∧ b.username = a.username ∧ b.role = a.role) ∨
      (a.id = w.nextUser ∧ w.nextUser < v.nextUser ∧ v.users = w.users ++ [a])) : AccountsKept v history where
  fresh a listed := by
    rcases users a listed with ⟨b, old, id, _⟩ | ⟨id, grown, _⟩
    · rw [← id]
      exact (kept.fresh b old).trans_le next
    · rw [id]
      exact grown
  distinct a left b right := by
    intro same
    rcases users a left with ⟨a', old, id, name, role⟩ | ⟨id, _, whole⟩
    · rcases users b right with ⟨b', old', id', name', role'⟩ | ⟨id', _, _⟩
      · rw [← name, ← role, ← name', ← role']
        exact kept.distinct a' old b' old' (by rw [id, id', same])
      · have bound := kept.fresh a' old
        omega
    · rcases users b right with ⟨b', old', id', _⟩ | ⟨_, _, whole'⟩
      · have bound := kept.fresh b' old'
        omega
      · rw [whole] at whole'
        obtain rfl := List.singleton_injective (List.append_cancel_left whole')
        exact ⟨rfl, rfl⟩
  given e listed a found := by
    obtain ⟨bound, agree⟩ := kept.given e listed a found
    refine ⟨bound.trans_le next, fun b right same => ?_⟩
    rcases users b right with ⟨b', old, id, name, role⟩ | ⟨id, _, _⟩
    · rw [← name, ← role]
      exact agree b' old (id.trans same)
    · omega
  same := kept.same

theorem AccountsKept.snoc {w : World} {history : List Entry} (kept : AccountsKept w history) {e : Entry}
    (rows : ∀ a ∈ answered e.2, a ∈ w.users) : AccountsKept w (history ++ [e]) where
  fresh := kept.fresh
  distinct := kept.distinct
  given e' listed a found := by
    rcases List.mem_append.mp listed with old | new
    · exact kept.given e' old a found
    · obtain rfl := List.mem_singleton.mp new
      have row := rows a found
      exact ⟨kept.fresh a row, fun b listed => kept.distinct b listed a row⟩
  same e' listed a found e'' listed' b found' := by
    rcases List.mem_append.mp listed with old | new <;> rcases List.mem_append.mp listed' with old' | new'
    · exact kept.same e' old a found e'' old' b found'
    · obtain rfl := List.mem_singleton.mp new'
      intro id
      obtain ⟨name, role⟩ := (kept.given e' old a found).2 b (rows b found') id.symm
      exact ⟨name.symm, role.symm⟩
    · obtain rfl := List.mem_singleton.mp new
      exact (kept.given e'' old' b found').2 a (rows a found)
    · obtain rfl := List.mem_singleton.mp new
      obtain rfl := List.mem_singleton.mp new'
      exact kept.distinct a (rows a found) b (rows b found')

/-- The statement has ended the session, and was acknowledged. -/
inductive Ends : Entry → Session → Prop where
  | logout (request : Request) (row : Session) : Ends (request, ⟨.deleteSession row.token, .ok ()⟩) row
  | revoked (request : Request) (row : Session) : Ends (request, ⟨.deleteSessionsOf row.userID, .ok ()⟩) row
  | expired (request : Request) (row : Session) (now : Time) : fmtTime row.expiresAt < fmtTime now →
      Ends (request, ⟨.deleteExpiredSessions now, .ok ()⟩) row

/-- What is left after a deletion was there before, and is spared by one that is acknowledged. -/
theorem World.spared {w : World} {o : Op} {a : Answer} {row : Session} {selects : Session → Bool}
    (deletes : w.written o = .ok (w.deleteSessions selects)) (listed : row ∈ (w.write o a).2.sessions) :
    row ∈ w.sessions ∧ ((w.write o a).1 = .ok () → selects row = false) := by
  rcases w.write_cases o a with ⟨same, e, failed⟩ | done
  · rw [same] at listed
    refine ⟨listed, fun fine => ?_⟩
    rw [failed] at fine
    cases fine
  · rw [deletes] at done
    rw [← Except.ok.inj done] at listed
    obtain ⟨old, spared⟩ := List.mem_filter.mp listed
    exact ⟨old, fun _ => by simpa using spared⟩

/-- One request after another, each in a thread of its own, for as many statements as it has. -/
def inTurn : Nat → List (Request × String × Nat) → List (Move Answer Request)
  | _, [] => []
  | tid, (request, text, statements) :: rest =>
    .start request :: List.replicate statements (.step tid { text := some text }) ++ inTurn (tid + 1) rest

end Cronova.Auth
