import Cronova.Api.Access
import Cronova.Process.Interleaving
import Cronova.Store.Tables

/-! Accounts, sessions and tokens: the tables of `internal/store/sqlite/schema.sql` that authentication reads,
and the statements on them.

A statement may fail before it is executed or after; then its answer is an error either way. Only digests of
tokens and secrets are stored.
-/

set_option autoImplicit false

namespace Cronova.Auth

open Api (Role User)
open Calendar (Time)
open Process (Signature)
open Store.DB (fmtTime)

/-- A row of `users`. -/
structure Account where
  id : Nat
  username : String
  passwordHash : String
  role : Role
  deriving DecidableEq

/-- A row of `sessions`. -/
structure Session where
  token : String
  userID : Nat
  expiresAt : Time
  deriving DecidableEq

/-- A row of `api_tokens`. -/
structure APIToken where
  id : Nat
  name : String
  role : Role
  hash : String
  lastUsedAt : Option Time
  expiresAt : Option Time
  dagID : String
  deriving DecidableEq

/-- A row of `dag_hooks`. -/
structure Hook where
  dagID : String
  secretHash : String
  deriving DecidableEq

/-- A row of `worker_join_tokens`. -/
structure JoinToken where
  hash : String
  createdBy : String
  expiresAt : Time
  used : Bool
  deriving DecidableEq

/-- `nextUser` and `nextToken` are the sequences of `AUTOINCREMENT`. -/
structure World where
  users : List Account := []
  nextUser : Nat := 1
  sessions : List Session := []
  tokens : List APIToken := []
  nextToken : Nat := 1
  hooks : List Hook := []
  joins : List JoinToken := []
  workers : List String := []

inductive StoreError where
  | notFound
  | refused
  | failed
  deriving DecidableEq

/-- The user that a request is handed on as, by name. -/
structure Principal where
  username : String
  user : User

inductive Op where
  | timeNow
  /-- `rand.Read`, encoded. -/
  | random
  /-- Whether the limiter lets the request pass. -/
  | limiter
  | getUserByUsername (username : String)
  | getUserByID (id : Nat)
  | createUser (username passwordHash : String) (role : Role)
  | updatePassword (id : Nat) (passwordHash : String)
  | deleteUser (id : Nat)
  | createSession (row : Session)
  | getSession (token : String)
  | deleteSession (token : String)
  | deleteSessionsOf (userID : Nat)
  | deleteExpiredSessions (now : Time)
  | getDAG (dagID : String)
  | createAPIToken (name : String) (role : Role) (hash : String) (expiresAt : Option Time) (dagID : String)
  | getAPITokenByHash (hash : String)
  | touchAPIToken (id : Nat) (now : Time)
  | deleteAPIToken (id : Nat)
  | setDagHook (row : Hook)
  | getDagHook (dagID : String)
  | deleteDagHook (dagID : String)
  | createJoinToken (row : JoinToken)
  | consumeJoinToken (hash : String) (now : Time)
  | upsertWorker (workerID : String)
  /-- `next.ServeHTTP` with the user in the context. -/
  | serve (principal : Principal)
  /-- `TriggerManual` of the scheduler. -/
  | triggerManual (dagID : String)

def Op.Reply : Op → Type
  | .timeNow => Time
  | .random => Option String
  | .limiter => Bool
  | .getUserByUsername _ | .getUserByID _ => Except StoreError Account
  | .getSession _ => Except StoreError Session
  | .getAPITokenByHash _ => Except StoreError APIToken
  | .getDagHook _ => Except StoreError Hook
  | .serve _ | .triggerManual _ => Unit
  | _ => Except StoreError Unit

abbrev statements : Signature := ⟨Op, Op.Reply⟩

/-- What becomes of a statement: it is executed and answered, not executed, or executed and not answered. -/
inductive Outcome where
  | answered
  | failed
  | unanswered
  deriving DecidableEq

/-- What the surroundings add to a statement. -/
structure Answer where
  outcome : Outcome := .answered
  time : Time := 0
  text : Option String := none
  flag : Bool := true

/-! ### The statements -/

namespace World

variable (w : World)

/-- `INSERT INTO users`: the name is unique. -/
def createUser (username passwordHash : String) (role : Role) : Except StoreError World :=
  if w.users.any (·.username == username) then .error .refused
  else .ok { w with users := w.users ++ [⟨w.nextUser, username, passwordHash, role⟩], nextUser := w.nextUser + 1 }

/-- `UPDATE users SET password_hash`. -/
def updatePassword (id : Nat) (passwordHash : String) : Except StoreError World :=
  if w.users.any (·.id == id) then
    .ok { w with users := w.users.map fun a => if a.id = id then { a with passwordHash } else a }
  else .error .notFound

/-- `DELETE FROM users`, to which `sessions` refers. -/
def deleteUser (id : Nat) : Except StoreError World :=
  if w.sessions.any (·.userID == id) then .error .refused
  else if w.users.any (·.id == id) then .ok { w with users := w.users.filter (·.id ≠ id) }
  else .error .notFound

/-- `INSERT INTO sessions`: the token is the primary key, and the user is there. -/
def createSession (row : Session) : Except StoreError World :=
  if w.sessions.any (·.token == row.token) ∨ !w.users.any (·.id == row.userID) then .error .refused
  else .ok { w with sessions := w.sessions ++ [row] }

/-- `DELETE FROM sessions WHERE …`. -/
def deleteSessions (selects : Session → Bool) : World := { w with sessions := w.sessions.filter (!selects ·) }

def createAPIToken (name : String) (role : Role) (hash : String) (expiresAt : Option Time) (dagID : String) : Except StoreError World :=
  if w.tokens.any (·.hash == hash) then .error .refused
  else .ok { w with tokens := w.tokens ++ [⟨w.nextToken, name, role, hash, none, expiresAt, dagID⟩], nextToken := w.nextToken + 1 }

def touchAPIToken (id : Nat) (now : Time) : World :=
  { w with tokens := w.tokens.map fun t => if t.id = id then { t with lastUsedAt := some now } else t }

def deleteAPIToken (id : Nat) : Except StoreError World :=
  if w.tokens.any (·.id == id) then .ok { w with tokens := w.tokens.filter (·.id ≠ id) } else .error .notFound

/-- `INSERT … ON CONFLICT(dag_id) DO UPDATE`. -/
def setDagHook (row : Hook) : World := { w with hooks := w.hooks.filter (·.dagID ≠ row.dagID) ++ [row] }

def deleteDagHook (dagID : String) : Except StoreError World :=
  if w.hooks.any (·.dagID == dagID) then .ok { w with hooks := w.hooks.filter (·.dagID ≠ dagID) } else .error .notFound

def createJoinToken (row : JoinToken) : Except StoreError World :=
  if w.joins.any (·.hash == row.hash) then .error .refused else .ok { w with joins := w.joins ++ [row] }

/-- The token is known, not used and, by the text of its expiry, not expired. -/
def JoinToken.valid (hash : String) (now : Time) (row : JoinToken) : Bool :=
  row.hash == hash && !row.used && decide (fmtTime now < fmtTime row.expiresAt)

/-- `UPDATE worker_join_tokens SET used_at`. -/
def consumeJoinToken (hash : String) (now : Time) : Except StoreError World :=
  if w.joins.any (JoinToken.valid hash now) then
    .ok { w with joins := w.joins.map fun row => if JoinToken.valid hash now row then { row with used := true } else row }
  else .error .notFound

/-- The store after a statement that writes. -/
def written : Op → Except StoreError World
  | .createUser username passwordHash role => w.createUser username passwordHash role
  | .updatePassword id passwordHash => w.updatePassword id passwordHash
  | .deleteUser id => w.deleteUser id
  | .createSession row => w.createSession row
  | .deleteSession token => .ok (w.deleteSessions (·.token == token))
  | .deleteSessionsOf userID => .ok (w.deleteSessions (·.userID == userID))
  | .deleteExpiredSessions now => .ok (w.deleteSessions fun s => decide (fmtTime s.expiresAt < fmtTime now))
  | .createAPIToken name role hash expiresAt dagID => w.createAPIToken name role hash expiresAt dagID
  | .touchAPIToken id now => .ok (w.touchAPIToken id now)
  | .deleteAPIToken id => w.deleteAPIToken id
  | .setDagHook row => .ok (w.setDagHook row)
  | .deleteDagHook dagID => w.deleteDagHook dagID
  | .createJoinToken row => w.createJoinToken row
  | .consumeJoinToken hash now => w.consumeJoinToken hash now
  | .upsertWorker workerID => .ok { w with workers := w.workers.filter (· ≠ workerID) ++ [workerID] }
  | _ => .ok w

/-- A statement that writes, with its answer. -/
def write (o : Op) (a : Answer) : Except StoreError Unit × World :=
  match a.outcome, w.written o with
  | .answered, .ok v => (.ok (), v)
  | .answered, .error e => (.error e, w)
  | .unanswered, .ok v => (.error .failed, v)
  | .unanswered, .error _ => (.error .failed, w)
  | .failed, _ => (.error .failed, w)

/-- A statement that reads. -/
def select {R : Type} (a : Answer) : Option R → Except StoreError R
  | none => .error (if a.outcome = .answered then .notFound else .failed)
  | some row => if a.outcome = .answered then .ok row else .error .failed

/-- What a statement answers and does. The limiter, the random source and the DAGs answer as they please. -/
def answer (a : Answer) : (o : Op) → o.Reply × World
  | .timeNow => (a.time, w)
  | .random => (a.text, w)
  | .limiter => (a.flag, w)
  | .getUserByUsername username => (select a (w.users.find? (·.username == username)), w)
  | .getUserByID id => (select a (w.users.find? (·.id == id)), w)
  | .getSession token => (select a (w.sessions.find? (·.token == token)), w)
  | .getDAG _ => (select a (if a.flag then some () else none), w)
  | .getAPITokenByHash hash => (select a (w.tokens.find? (·.hash == hash)), w)
  | .getDagHook dagID => (select a (w.hooks.find? (·.dagID == dagID)), w)
  | .serve _ | .triggerManual _ => ((), w)
  | .createUser username passwordHash role => w.write (.createUser username passwordHash role) a
  | .updatePassword id passwordHash => w.write (.updatePassword id passwordHash) a
  | .deleteUser id => w.write (.deleteUser id) a
  | .createSession row => w.write (.createSession row) a
  | .deleteSession token => w.write (.deleteSession token) a
  | .deleteSessionsOf userID => w.write (.deleteSessionsOf userID) a
  | .deleteExpiredSessions now => w.write (.deleteExpiredSessions now) a
  | .createAPIToken name role hash expiresAt dagID => w.write (.createAPIToken name role hash expiresAt dagID) a
  | .touchAPIToken id now => w.write (.touchAPIToken id now) a
  | .deleteAPIToken id => w.write (.deleteAPIToken id) a
  | .setDagHook row => w.write (.setDagHook row) a
  | .deleteDagHook dagID => w.write (.deleteDagHook dagID) a
  | .createJoinToken row => w.write (.createJoinToken row) a
  | .consumeJoinToken hash now => w.write (.consumeJoinToken hash now) a
  | .upsertWorker workerID => w.write (.upsertWorker workerID) a

/-- A statement leaves the store as it is or executes it; one that is acknowledged is executed. -/
theorem write_cases (o : Op) (a : Answer) :
    ((w.write o a).2 = w ∧ ∃ e, (w.write o a).1 = .error e) ∨ w.written o = .ok (w.write o a).2 := by
  unfold write
  cases a.outcome <;> cases w.written o <;> simp

end World

end Cronova.Auth
