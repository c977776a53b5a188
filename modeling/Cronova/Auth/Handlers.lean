import Cronova.Auth.Store
import Cronova.Process.Provenance
import Cronova.Text.Trim

/-! The handlers that hand out credentials and those that ask for them: `internal/api/auth.go`, `tokens.go`,
`workers.go` and the hooks of `events.go`, and the account and token commands of `cmd/cronova`.

They run side by side, one statement at a time. A request passes `withAuth` and the multiplexer as they are
in `Access` and `Routes`; handlers of other paths do nothing here.
-/

set_option autoImplicit false

namespace Cronova.Auth

open Api (Role User Handler)
open Calendar (Time)
open Process
open Text (trimSpace)

/-- What is configured, and the cryptography: SHA-256 in hex, PBKDF2 and the signing of worker certificates. -/
structure Env where
  web : Bool := true
  /-- The worker hub is enabled. -/
  workers : Bool := true
  sessionTTL : Time := 0
  sha256 : String → String
  /-- A password under a salt. -/
  hashPassword : String → String → String
  checkPassword : String → String → Bool
  signs : String → Bool

/-- What a body of a request says; a `ttl` that cannot be read is a `some none`. -/
structure Body where
  username : String := ""
  password : String := ""
  name : String := ""
  role : String := ""
  ttl : Option (Option Time) := none
  dagID : String := ""
  token : String := ""
  labels : List (String × String) := []
  csrPEM : String := ""

/-- A request with the headers that authentication looks at. -/
structure Visit where
  request : Api.Request
  sameOrigin : Bool := true
  bearer : Option String := none
  cookie : Option String := none
  body : Option Body := none

inductive Request where
  | visit (v : Visit)
  | usersAdd (username password : String) (role : Role)
  | usersPasswd (username password : String)
  | usersDelete (username : String)
  | seedAdmin (username password : String)
  | tokensCreate (name : String) (role : Role)
  | tokensDelete (id : List Char)
  | seedJoinTokens (tokens : List String)
  | housekeeping

/-- A command or a start of the server, which whoever has the host can do. -/
def Request.onHost : Request → Bool
  | .visit _ => false
  | _ => true

abbrev Act := Prog statements Unit

abbrev perform (o : Op) : Act o.Reply := .call o .done

abbrev timeNow : Act Time := perform .timeNow

def hour : Time := 3600 * Calendar.second

def Account.principal (a : Account) : Principal := ⟨a.username, ⟨a.role, ""⟩⟩

def APIToken.principal (t : APIToken) : Principal := ⟨"token:" ++ t.name, ⟨t.role, t.dagID⟩⟩

variable (env : Env)

def hashAPIToken (plaintext : String) : String := env.sha256 plaintext

def hashSessionToken (token : String) : String := "sha256:" ++ env.sha256 token

/-! ### Accounts -/

/-- `HashPassword`. -/
def hashPassword (password : String) : Act (Option String) := do
  match ← perform .random with
  | none => pure none
  | some salt => pure (some (env.hashPassword password salt))

/-- `UpdateUserPassword`. -/
def updateUserPassword (id : Nat) (passwordHash : String) : Act Unit := do
  match ← perform (.updatePassword id passwordHash) with
  | .error _ => pure ()
  | .ok _ =>
    let _ ← perform (.deleteSessionsOf id)
    pure ()

def usersAdd (username password : String) (role : Role) : Act Unit := do
  if role = .operator then pure () else
  match ← hashPassword env password with
  | none => pure ()
  | some hash =>
    let _ ← perform (.createUser username hash role)
    pure ()

def usersPasswd (username password : String) : Act Unit := do
  match ← perform (.getUserByUsername username) with
  | .error _ => pure ()
  | .ok user =>
    match ← hashPassword env password with
    | none => pure ()
    | some hash => updateUserPassword user.id hash

/-- `DeleteUser` after its lookup. -/
def usersDelete (username : String) : Act Unit := do
  match ← perform (.getUserByUsername username) with
  | .error _ => pure ()
  | .ok user =>
    match ← perform (.deleteSessionsOf user.id) with
    | .error _ => pure ()
    | .ok _ =>
      let _ ← perform (.deleteUser user.id)
      pure ()

def seedAdmin (username password : String) : Act Unit := do
  match ← perform (.getUserByUsername username) with
  | .ok existing =>
    if env.checkPassword existing.passwordHash password then pure () else
    match ← hashPassword env password with
    | none => pure ()
    | some hash => updateUserPassword existing.id hash
  | .error .notFound =>
    match ← hashPassword env password with
    | none => pure ()
    | some hash =>
      let _ ← perform (.createUser username hash .admin)
      pure ()
  | .error _ => pure ()

/-- The part of `housekeeping` that concerns sessions. -/
def housekeeping : Act Unit := do
  let _ ← perform (.deleteExpiredSessions (← timeNow))
  pure ()

/-! ### Sessions -/

/-- `login`. -/
def login (b : Body) : Act Unit := do
  if !(← perform .limiter) then pure () else
  match ← perform (.getUserByUsername b.username) with
  | .error _ => pure ()
  | .ok user =>
    if !env.checkPassword user.passwordHash b.password then pure () else
    match ← perform .random with
    | none => pure ()
    | some token =>
      let ttl := if env.sessionTTL ≤ 0 then 24 * hour else env.sessionTTL
      let now ← timeNow
      let _ ← perform (.createSession ⟨hashSessionToken env token, user.id, now + ttl⟩)
      pure ()

/-- `logout`. -/
def logout : Option String → Act Unit
  | none => pure ()
  | some token => do
    if token = "" then pure () else
    let _ ← perform (.deleteSession (hashSessionToken env token))
    pure ()

/-- `currentUser`, with `GetSession`. -/
def currentUser : Option String → Act (Option Principal)
  | none => pure none
  | some token => do
    if token = "" then pure none else
    match ← perform (.getSession (hashSessionToken env token)) with
    | .error _ => pure none
    | .ok row =>
      if row.expiresAt ≤ (← timeNow) then
        let _ ← perform (.deleteSession (hashSessionToken env token))
        pure none
      else
        match ← perform (.getUserByID row.userID) with
        | .error _ => pure none
        | .ok user => pure (some user.principal)

/-! ### Tokens -/

/-- The token is stamped when its last stamp is a minute old. -/
def touch (t : APIToken) : Act Unit := do
  let now ← timeNow
  if t.lastUsedAt.all fun last => decide (60 * Calendar.second < now - last) then
    let _ ← perform (.touchAPIToken t.id (← timeNow))
    pure ()
  else pure ()

/-- `authenticate`. -/
def authenticate (v : Visit) : Act (Option Principal) :=
  match v.bearer with
  | none => currentUser env v.cookie
  | some header => do
    let raw := trimSpace header
    if raw = "" then pure none else
    match ← perform (.getAPITokenByHash (hashAPIToken env raw)) with
    | .error _ => pure none
    | .ok t =>
      let now ← timeNow
      if t.expiresAt.any fun expires => decide (expires < now) then pure none else
      touch t
      pure (some t.principal)

def readRole (role : String) : Option Role :=
  if role = "" ∨ role = "admin" then some .admin
  else if role = "operator" then some .operator
  else if role = "viewer" then some .viewer
  else none

/-- A lifetime as the body gives it, none being unlimited; it has to be read and positive. -/
def readLifetime : Option (Option Time) → Option (Option Time)
  | none => some none
  | some none => none
  | some (some d) => if d ≤ 0 then none else some (some d)

def expiry : Option Time → Act (Option Time)
  | none => pure none
  | some d => do pure (some ((← timeNow) + d))

def knownDAG (dagID : String) : Act Bool := do
  if dagID = "" then pure true else
  match ← perform (.getDAG dagID) with
  | .ok _ => pure true
  | .error _ => pure false

/-- `createToken`. -/
def createToken (b : Body) : Act Unit := do
  let name := trimSpace b.name
  if name = "" then pure () else
  match readRole b.role, readLifetime b.ttl with
  | some role, some lifetime =>
    let expiresAt ← expiry lifetime
    let dagID := trimSpace b.dagID
    if !(← knownDAG dagID) then pure () else
    match ← perform .random with
    | none => pure ()
    | some text =>
      let _ ← perform (.createAPIToken name role (hashAPIToken env ("cnv_pat_" ++ text)) expiresAt dagID)
      pure ()
  | _, _ => pure ()

/-- The id of a path as `ParseInt` reads it; a negative one is no token's. -/
def readID (text : List Char) : Option Nat :=
  let digits := if text.head? = some '+' then text.tail else text
  let id := digits.foldl (fun n c => 10 * n + (c.toNat - '0'.toNat)) 0
  if digits ≠ [] ∧ digits.all Char.isDigit ∧ id < 2 ^ 63 then some id else none

/-- `deleteToken`. -/
def deleteToken (id : List Char) : Act Unit := do
  match readID id with
  | none => pure ()
  | some id =>
    let _ ← perform (.deleteAPIToken id)
    pure ()

/-- `tokens create` and `tokens delete` of `cmdTokens`. -/
def tokensCreate (name : String) (role : Role) : Act Unit := do
  if role = .operator then pure () else
  match ← perform .random with
  | none => pure ()
  | some text =>
    let _ ← perform (.createAPIToken name role (hashAPIToken env ("cnv_pat_" ++ text)) none "")
    pure ()

/-! ### Hooks -/

/-- `setDagHook`. -/
def setDagHook (dagID : String) : Act Unit := do
  match ← perform (.getDAG dagID) with
  | .error _ => pure ()
  | .ok _ =>
    match ← perform .random with
    | none => pure ()
    | some text =>
      let _ ← perform (.setDagHook ⟨dagID, hashAPIToken env ("cnv_pat_" ++ text)⟩)
      pure ()

/-- `deleteDagHook`. -/
def deleteDagHook (dagID : String) : Act Unit := do
  let _ ← perform (.deleteDagHook dagID)
  pure ()

/-- `hookTrigger`. -/
def hookTrigger (dagID secret : String) : Act Unit := do
  if !(← perform .limiter) then pure () else
  match ← perform (.getDagHook dagID) with
  | .error _ => pure ()
  | .ok hook =>
    if hashAPIToken env secret = hook.secretHash then
      let _ ← perform (.triggerManual dagID)
      pure ()
    else pure ()

/-! ### Workers -/

/-- `createWorkerToken`. -/
def createWorkerToken (body : Option Body) (actor : String) : Act Unit := do
  if !env.workers then pure () else
  let given := (body.map (·.ttl)).getD none
  match given with
  | some none => pure ()
  | _ =>
    let ttl := (given.getD none).getD (24 * hour)
    if ttl ≤ 0 ∨ 30 * 24 * hour < ttl then pure () else
    match ← perform .random with
    | none => pure ()
    | some text =>
      let now ← timeNow
      let _ ← perform (.createJoinToken ⟨hashAPIToken env ("cwj_" ++ text), actor, now + ttl, false⟩)
      pure ()

/-- The join tokens of the configuration, as `startWorkerHub` seeds them. -/
def seedJoinTokens : List String → Act Unit
  | [] => pure ()
  | token :: tokens => do
    if token.utf8ByteSize < 16 then seedJoinTokens tokens else
    let now ← timeNow
    let _ ← perform (.createJoinToken ⟨hashAPIToken env token, "config", now + 24 * hour, false⟩)
    seedJoinTokens tokens

def validWorkerName (name : String) : Bool :=
  name.length ≤ 64 && name.toList.all fun c => c.isAlphanum || c == '_' || c == '.' || c == '-'

/-- `joinWorker`. -/
def joinWorker (body : Option Body) : Act Unit := do
  if !env.workers then pure () else
  if !(← perform .limiter) then pure () else
  match body with
  | none => pure ()
  | some b =>
    if b.token = "" ∨ b.csrPEM = "" ∨ !validWorkerName b.name ∨ 16 < b.labels.length ∨
        b.labels.any (fun l => 64 < l.1.utf8ByteSize || 256 < l.2.utf8ByteSize) then pure () else
    match ← perform (.consumeJoinToken (hashAPIToken env b.token) (← timeNow)) with
    | .error _ => pure ()
    | .ok _ =>
      match ← perform .random with
      | none => pure ()
      | some text =>
        if !env.signs b.csrPEM then pure () else
        let _ ← perform (.upsertWorker ("wk_" ++ text))
        pure ()

/-! ### Requests -/

def onBody (body : Option Body) (handler : Body → Act Unit) : Act Unit :=
  match body with
  | none => pure ()
  | some b => handler b

/-- The handler that the multiplexer finds, for a request that `withAuth` hands on. -/
def handle (v : Visit) (actor : String) : Act Unit :=
  match v.request.route env.web with
  | some (.login, _) => onBody v.body (login env)
  | some (.logout, _) => logout env v.cookie
  | some (.createToken, _) => onBody v.body (createToken env)
  | some (.deleteToken, [id]) => deleteToken id
  | some (.setDagHook, [dag]) => setDagHook env (String.ofList dag)
  | some (.deleteDagHook, [dag]) => deleteDagHook (String.ofList dag)
  | some (.hookTrigger, [dag, secret]) => hookTrigger env (String.ofList dag) (String.ofList secret)
  | some (.createWorkerToken, _) => createWorkerToken env v.body actor
  | some (.joinWorker, _) => joinWorker env v.body
  | _ => pure ()

/-- What `withAuth` knows of a request. -/
def Visit.arrival (v : Visit) (user : Option User) : Api.Arrival := ⟨v.request, true, v.bearer.isSome, v.sameOrigin, user⟩

/-- `withAuth` around the multiplexer; the user is looked up where the request needs one. -/
def visit (v : Visit) : Act Unit :=
  match Api.withAuth (v.arrival none) with
  | .open_ => handle env v "anonymous"
  | .unauthorized => do
    match ← authenticate env v with
    | none => pure ()
    | some principal =>
      match Api.withAuth (v.arrival (some principal.user)) with
      | .admitted _ =>
        perform (.serve principal)
        handle env v principal.username
      | _ => pure ()
  | _ => pure ()

def program : Request → Act Unit
  | .visit v => visit env v
  | .usersAdd username password role => usersAdd env username password role
  | .usersPasswd username password => usersPasswd env username password
  | .usersDelete username => usersDelete username
  | .seedAdmin username password => seedAdmin env username password
  | .tokensCreate name role => tokensCreate env name role
  | .tokensDelete id => deleteToken id
  | .seedJoinTokens tokens => seedJoinTokens env tokens
  | .housekeeping => housekeeping

/-- The server and the commands beside it, on one store. A crash leaves the store. -/
def server : System statements Unit World Answer Request where
  perform _ o a w := some ((w.answer a o).1, (w.answer a o).2, [])
  program := program env
  admits _ _ := true
  crash _ w := w
  boot := .housekeeping

abbrev State := Pool statements Unit World Request

abbrev Entry := Request × Issued statements

/-- The states of a server that has started on an empty store. -/
def Reached (p : State) : Prop := (server env).Reaches (fun _ _ => True) ⟨{}, [], []⟩ p

end Cronova.Auth
