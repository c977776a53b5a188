import Cronova.Auth.Sessions

/-! Tokens, hooks and join tokens, and whose password stands behind them.

What the store hands back for a secret is what an administrator or a command on the host has asked for and nobody has
revoked since. So every request that is let in, every run that a hook triggers and every worker that joins goes back to
somebody who has logged in, or to such a command.
-/

set_option autoImplicit false

namespace Cronova.Auth

open Calendar (Time)
open Process
open Store.DB (fmtTime)
open Text (trimSpace)

variable {env : Env} {p : State}

/-! ### What brings a secret about, and what takes it back -/

inductive Mints : Entry → APIToken → Prop where
  | created (request : Request) (t : APIToken) (r : Except StoreError Unit) :
      Mints (request, ⟨.createAPIToken t.name t.role t.hash t.expiresAt t.dagID, r⟩) t

inductive Issues : Entry → String → Prop where
  | created (request : Request) (row : JoinToken) (r : Except StoreError Unit) : Issues (request, ⟨.createJoinToken row, r⟩) row.hash

inductive Consumes : Entry → String → Prop where
  | used (request : Request) (hash : String) (now : Time) : Consumes (request, ⟨.consumeJoinToken hash now, .ok ()⟩) hash

/-! ### The tables -/

section Tables

variable {w v : World} {o : Op} {a : Answer} {history : List Entry}

/-- The join tokens that are stored: each hash once, each issued, and those that were consumed are used. -/
structure JoinsKept (w : World) (history : List Entry) : Prop where
  distinct : ∀ row ∈ w.joins, ∀ row' ∈ w.joins, row.hash = row'.hash → row = row'
  issued : ∀ row ∈ w.joins, ∃ e ∈ history, Issues e row.hash
  used : ∀ e ∈ history, ∀ hash, Consumes e hash → ∃ row ∈ w.joins, row.hash = hash ∧ row.used = true

theorem JoinsKept.snoc (kept : JoinsKept w history) {e : Entry} (other : ∀ hash, ¬ Consumes e hash) : JoinsKept w (history ++ [e]) where
  distinct := kept.distinct
  issued row listed := by
    obtain ⟨e', before, issues⟩ := kept.issued row listed
    exact ⟨e', List.mem_append_left _ before, issues⟩
  used e' listed hash consumes := by
    rcases List.mem_append.mp listed with old | new
    · exact kept.used e' old hash consumes
    · obtain rfl := List.mem_singleton.mp new
      exact absurd consumes (other hash)

theorem JoinsKept.create (kept : JoinsKept w history) (request : Request) {row : JoinToken} (done : w.createJoinToken row = .ok v)
    (r : Except StoreError Unit) : JoinsKept v (history ++ [(request, ⟨.createJoinToken row, r⟩)]) := by
  unfold World.createJoinToken at done
  split at done
  · cases done
  · rename_i fresh
    cases done
    have new : ∀ other ∈ w.joins, other.hash ≠ row.hash := by simpa using fresh
    refine ⟨fun x left y right same => ?_, fun x listed => ?_, fun e listed hash consumes => ?_⟩
    · rcases List.mem_append.mp left with old | last <;> rcases List.mem_append.mp right with old' | last'
      · exact kept.distinct x old y old' same
      · obtain rfl := List.mem_singleton.mp last'
        exact absurd same (new x old)
      · obtain rfl := List.mem_singleton.mp last
        exact absurd same.symm (new y old')
      · rw [List.mem_singleton.mp last, List.mem_singleton.mp last']
    · rcases List.mem_append.mp listed with old | last
      · obtain ⟨e, before, issues⟩ := kept.issued x old
        exact ⟨e, List.mem_append_left _ before, issues⟩
      · obtain rfl := List.mem_singleton.mp last
        exact ⟨_, List.mem_append_right _ (List.mem_singleton.mpr rfl), .created request x r⟩
    · rcases List.mem_append.mp listed with old | last
      · obtain ⟨x, stored, rest⟩ := kept.used e old hash consumes
        exact ⟨x, List.mem_append_left _ stored, rest⟩
      · obtain rfl := List.mem_singleton.mp last
        cases consumes

/-- A join token that is about to be consumed is stored, and not used. -/
theorem World.unused {hash : String} {now : Time} (done : w.consumeJoinToken hash now = .ok v) :
    ∃ row ∈ w.joins, row.hash = hash ∧ row.used = false ∧ fmtTime now < fmtTime row.expiresAt := by
  unfold consumeJoinToken at done
  split at done
  · rename_i present
    obtain ⟨row, stored, valid⟩ := List.any_eq_true.mp present
    simp only [JoinToken.valid, Bool.and_eq_true, beq_iff_eq, Bool.not_eq_true', decide_eq_true_eq] at valid
    exact ⟨row, stored, valid.1.1, valid.1.2, valid.2⟩
  · cases done

end Tables

/-! ### What stands -/

/-- An administrator has been let through to the request before. -/
def ByAdmin (before : List Entry) (request : Request) : Prop :=
  ∃ principal, (request, ⟨.serve principal, ()⟩) ∈ before ∧ principal.user.role = .admin

theorem Granted.byAdmin {before : List Entry} {request : Request} {h : Api.Handler}
    (granted : Granted env request (fun x => (request, x) ∈ before) h) : ByAdmin before request := by
  obtain ⟨v, principal, params, rfl, served, _, role, _⟩ := granted
  exact ⟨principal, served, role⟩

/-- The request is an administrator's, or a command on the host. -/
def Sponsored (before : List Entry) (request : Request) : Prop := request.onHost = true ∨ ByAdmin before request

/-- Somebody has logged in to the account with its password. -/
def Backed (env : Env) (before : List Entry) (account : Account) : Prop :=
  ∃ login, LoggedIn env login (fun x => (.visit login, x) ∈ before) account

/-- An administrator has logged in, or a command on the host has handed out a token. -/
def Rooted (env : Env) (before : List Entry) : Prop :=
  (∃ account, Backed env before account ∧ account.role = .admin) ∨
    ∃ e ∈ before, e.1.onHost = true ∧ ((∃ t, Mints e t) ∨ ∃ hash, Issues e hash)

/-- Whom a statement that takes authority goes back to. -/
structure Authorised (env : Env) (before : List Entry) (e : Entry) : Prop where
  serve : ∀ principal, e.2 = ⟨.serve principal, ()⟩ → (∃ account, Backed env before account ∧ principal = account.principal) ∨ Rooted env before
  mint : ∀ name role hash expiresAt dagID r, e.2 = ⟨.createAPIToken name role hash expiresAt dagID, r⟩ → e.1.onHost = true ∨ Rooted env before
  trigger : ∀ dagID, e.2 = ⟨.triggerManual dagID, ()⟩ → Rooted env before
  join : ∀ workerID r, e.2 = ⟨.upsertWorker workerID, r⟩ → Rooted env before

theorem Backed.later {before after : List Entry} {account : Account} (backed : Backed env before account) :
    Backed env (before ++ after) account := by
  obtain ⟨login, loggedIn⟩ := backed
  exact ⟨login, loggedIn.mono fun _ listed => List.mem_append_left _ listed⟩

theorem Rooted.later {before after : List Entry} (rooted : Rooted env before) : Rooted env (before ++ after) := by
  rcases rooted with ⟨account, backed, admin⟩ | ⟨e, listed, rest⟩
  · exact .inl ⟨account, backed.later, admin⟩
  · exact .inr ⟨e, List.mem_append_left _ listed, rest⟩

/-- An administrator who has been let through goes back to where authority comes from. -/
theorem ByAdmin.rooted {before : List Entry} {request : Request} (traced : Accounts (Authorised env) before) (byAdmin : ByAdmin before request) :
    Rooted env before := by
  obtain ⟨principal, served, role⟩ := byAdmin
  obtain ⟨front, back, split, authorised⟩ := traced.mem served
  rw [split]
  rcases authorised.serve principal rfl with ⟨account, backed, same⟩ | rooted
  · rw [same] at role
    exact .inl ⟨account, backed.later, role⟩
  · exact rooted.later

/-- So does a request before, which an administrator has made. -/
theorem ByAdmin.followed {before front back : List Entry} {request : Request} (traced : Accounts (Authorised env) before)
    (split : before = front ++ back) (byAdmin : ByAdmin front request) : Rooted env before :=
  split ▸ (byAdmin.rooted (traced.earlier split)).later

/-- And one that has handed out a token. -/
theorem Sponsored.followed {before front back : List Entry} {e : Entry} (traced : Accounts (Authorised env) before)
    (split : before = front ++ e :: back) (sponsored : Sponsored front e.1) (hands : (∃ t, Mints e t) ∨ ∃ hash, Issues e hash) :
    Rooted env before := by
  rcases sponsored with onHost | byAdmin
  · exact .inr ⟨e, by simp [split], onHost, hands⟩
  · exact byAdmin.followed traced split

end Cronova.Auth
