import Cronova.Api.Operator
import Cronova.Auth.Handlers

/-! What each statement of a handler rests on, as far as the handler itself has seen to it. -/

set_option autoImplicit false

namespace Cronova.Auth

open Api (Role User Handler)
open Calendar (Time)
open Http (Fits Part join)
open Process Prog
open Text (trimSpace)

/-! ### Who gets to a handler -/

section Routes

variable {web : Bool} {req : Api.Request} {h : Handler} {params : List (List Char)} {user : User}

/-- The handlers that hand out credentials. -/
def grants : Handler → Bool
  | .createToken | .createWorkerToken | .setDagHook => true
  | _ => false

/-- The patterns of these handlers. -/
def grantShape (route : Http.Route Handler) : Bool :=
  route.method = some "POST" && route.handler.configures &&
    (route.parts = [.lit "api", .lit "tokens"] || route.parts = [.lit "api", .lit "worker-tokens"] ||
      (route.handler = .setDagHook && route.parts = [.lit "api", .lit "dags", .wild "id", .lit "hook"]))

theorem grantShape_routes : ∀ web, ∀ route ∈ Api.routes web, grants route.handler = true → grantShape route = true := by
  decide +kernel

theorem grants_routes {route : Http.Route Handler} (listed : route ∈ Api.routes web) (granting : grants route.handler = true) :
    route.method = some "POST" ∧ route.handler.configures = true ∧
      ((∃ word, route.parts = [.lit "api", .lit word] ∧ word ∈ ["tokens", "worker-tokens"]) ∨
        (route.handler = .setDagHook ∧ route.parts = [.lit "api", .lit "dags", .wild "id", .lit "hook"])) := by
  have shape := grantShape_routes web route listed granting
  simp only [grantShape, Bool.and_eq_true, Bool.or_eq_true, decide_eq_true_eq] at shape
  obtain ⟨⟨post, configures⟩, (tokens | workers) | hook⟩ := shape
  · exact ⟨post, configures, .inl ⟨"tokens", tokens, by decide⟩⟩
  · exact ⟨post, configures, .inl ⟨"worker-tokens", workers, by decide⟩⟩
  · exact ⟨post, configures, .inr hook⟩

/-- The paths of these handlers: none is public, and a token that is scoped to a DAG writes none but the hook. -/
theorem grants_paths (found : req.route web = some (h, params)) (granting : grants h = true) :
    Api.isPublic req.path = false ∧ (h ≠ .setDagHook → ∀ dag, Api.writeTargetsDag req.path dag = false) := by
  obtain ⟨route, listed, rfl, _, fits⟩ := Api.Request.route_fits found
  obtain ⟨_, _, ⟨word, parts, known⟩ | ⟨hook, parts⟩⟩ := grants_routes listed granting
  · rw [parts] at fits
    obtain ⟨_, api, afterApi⟩ := Http.fits_lit fits
    obtain ⟨_, rfl, afterWord⟩ := Http.fits_lit afterApi
    obtain rfl := Http.fits_nil afterWord
    have path : req.path = '/' :: join ["api".toList, word.toList] := by rw [Api.Request.path, ← req.decoded_join, api]
    rw [path]
    simp only [List.mem_cons, List.not_mem_nil, or_false] at known
    rcases known with rfl | rfl
    · exact ⟨by decide, fun _ dag => rfl⟩
    · exact ⟨by decide, fun _ dag => rfl⟩
  · rw [parts] at fits
    obtain ⟨_, api, afterApi⟩ := Http.fits_lit fits
    obtain ⟨_, rfl, afterWord⟩ := Http.fits_lit afterApi
    obtain ⟨id, rest, others, rfl, _, _⟩ := Http.fits_wild afterWord
    have path : req.path = '/' :: join ("api".toList :: "dags".toList :: id :: rest) := by
      rw [Api.Request.path, ← req.decoded_join, api]
    refine ⟨?_, fun other => absurd hook other⟩
    rw [path, Http.join_cons_cons, Http.join_cons_cons]
    simp [Api.isPublic, List.isPrefixOf]

/-- Only an administrator is let through to them. -/
theorem admin_of_grants (through : user.letThrough req) (found : req.route web = some (h, params)) (granting : grants h = true) :
    user.role = .admin ∧ (h ≠ .setDagHook → user.scope = "") := by
  obtain ⟨route, listed, rfl, serves, fits⟩ := Api.Request.route_fits found
  obtain ⟨post, configures, _⟩ := grants_routes listed granting
  have writes : route.handler.target ≠ .nothing := by
    intro nothing
    rw [Handler.configures, nothing] at configures
    cases configures
  obtain ⟨_, may, _⟩ := through.writes found writes
  simp only [User.mayWrite, Bool.and_eq_true, Bool.or_eq_true, beq_iff_eq] at may
  obtain ⟨role, scope⟩ := may
  constructor
  · rcases role with admin | ⟨_, driving⟩
    · exact admin
    · rw [Api.Request.path, ← req.decoded_join] at driving
      obtain ⟨delete, _⟩ := Api.deletes_of_configShape (Api.configShape_routes web route listed configures) fits driving
      rw [post] at delete
      exact absurd delete (by decide)
  · intro unscoped
    rcases scope with none | narrow
    · exact none
    · rw [(grants_paths found granting).2 unscoped] at narrow
      cases narrow

end Routes

/-! ### What an entry rests on -/

variable (env : Env)

/-- The handler has looked up an account, and the password that it was given is the account's. -/
def LoggedIn (v : Visit) (seen : Issued statements → Prop) (account : Account) : Prop :=
  ∃ b, v.body = some b ∧ seen ⟨.getUserByUsername b.username, .ok account⟩ ∧
    env.checkPassword account.passwordHash b.password = true

/-- How `authenticate` has found the user. -/
inductive Authenticated (v : Visit) (seen : Issued statements → Prop) (principal : Principal) : Prop where
  | cookie (token : String) (row : Session) (now : Time) (account : Account) : v.bearer = none → v.cookie = some token →
      seen ⟨.getSession (hashSessionToken env token), .ok row⟩ → seen ⟨.timeNow, now⟩ → now < row.expiresAt →
      seen ⟨.getUserByID row.userID, .ok account⟩ → principal = account.principal → Authenticated v seen principal
  | bearer (header : String) (t : APIToken) (now : Time) : v.bearer = some header →
      seen ⟨.getAPITokenByHash (hashAPIToken env (trimSpace header)), .ok t⟩ → seen ⟨.timeNow, now⟩ →
      (∀ expires ∈ t.expiresAt, now ≤ expires) → principal = t.principal → Authenticated v seen principal

/-- An administrator has been let through to the handler. -/
def Granted (request : Request) (seen : Issued statements → Prop) (h : Handler) : Prop :=
  ∃ v principal params, request = .visit v ∧ seen ⟨.serve principal, ()⟩ ∧ v.request.route env.web = some (h, params) ∧
    principal.user.role = .admin ∧ (h ≠ .setDagHook → principal.user.scope = "")

/-- What the thread of a request has seen to before it issues a statement. -/
def Accounted (request : Request) (seen : Issued statements → Prop) : Op → Prop
  | .createSession row => ∃ v account token now, request = .visit v ∧ LoggedIn env v seen account ∧
      seen ⟨.random, some token⟩ ∧ row = ⟨hashSessionToken env token, account.id, now⟩
  | .serve principal => ∃ v, request = .visit v ∧ Authenticated env v seen principal ∧ principal.user.letThrough v.request
  | .createAPIToken _ _ _ _ _ => request.onHost = true ∨ Granted env request seen .createToken
  | .setDagHook _ => Granted env request seen .setDagHook
  | .createJoinToken _ => request.onHost = true ∨ Granted env request seen .createWorkerToken
  | .triggerManual dagID => ∃ v hook params secret, request = .visit v ∧ v.request.route env.web = some (.hookTrigger, params) ∧
      params = [dagID.toList, secret] ∧ seen ⟨.getDagHook dagID, .ok hook⟩ ∧
      hashAPIToken env (String.ofList secret) = hook.secretHash
  | .upsertWorker _ => ∃ hash now, seen ⟨.consumeJoinToken hash now, .ok ()⟩
  | _ => True

variable {env} {request : Request} {seen seen' : Issued statements → Prop}

theorem LoggedIn.mono {v : Visit} {account : Account} (loggedIn : LoggedIn env v seen account) (more : ∀ x, seen x → seen' x) :
    LoggedIn env v seen' account := by
  obtain ⟨b, body, looked, checked⟩ := loggedIn
  exact ⟨b, body, more _ looked, checked⟩

theorem Authenticated.mono {v : Visit} {principal : Principal} (authenticated : Authenticated env v seen principal)
    (more : ∀ x, seen x → seen' x) : Authenticated env v seen' principal := by
  cases authenticated with
  | cookie token row now account none given found clock valid known same =>
    exact .cookie token row now account none given (more _ found) (more _ clock) valid (more _ known) same
  | bearer header t now given found clock valid same => exact .bearer header t now given (more _ found) (more _ clock) valid same

theorem Granted.mono {h : Handler} (granted : Granted env request seen h) (more : ∀ x, seen x → seen' x) : Granted env request seen' h := by
  obtain ⟨v, principal, params, same, served, rest⟩ := granted
  exact ⟨v, principal, params, same, more _ served, rest⟩

theorem Accounted.mono {o : Op} (accounted : Accounted env request seen o) (more : ∀ x, seen x → seen' x) :
    Accounted env request seen' o := by
  cases o with
  | createSession row =>
    obtain ⟨v, account, token, now, same, loggedIn, drawn, rest⟩ := accounted
    exact ⟨v, account, token, now, same, loggedIn.mono more, more _ drawn, rest⟩
  | serve principal =>
    obtain ⟨v, same, authenticated, through⟩ := accounted
    exact ⟨v, same, authenticated.mono more, through⟩
  | createAPIToken | createJoinToken => exact Or.imp_right (fun granted => Granted.mono granted more) accounted
  | setDagHook => exact Granted.mono accounted more
  | triggerManual dagID =>
    obtain ⟨v, hook, params, secret, same, found, two, looked, matched⟩ := accounted
    exact ⟨v, hook, params, secret, same, found, two, more _ looked, matched⟩
  | upsertWorker =>
    obtain ⟨hash, now, consumed⟩ := accounted
    exact ⟨hash, now, more _ consumed⟩
  | _ => exact trivial

/-! ### The handlers -/

section Handlers

variable (env request)

/-- The contract under which the program of a request runs. -/
abbrev under : Contract statements (List (Issued statements)) := telling fun o log => Accounted env request (· ∈ log) o

variable {env request} {log : List (Issued statements)} {A : Type} {post : Except Unit A → List (Issued statements) → Prop}

/-- A statement that needs no account. -/
theorem plain {o : Op} {k : o.Reply → Act A} (free : ∀ seen, Accounted env request seen o)
    (onward : ∀ r, (k r).Safe (under env request) post (log ++ [⟨o, r⟩])) :
    Safe (under env request) (.call o k) post log :=
  Safe.told (free _) onward

/-- A postcondition of no interest. -/
abbrev any : Except Unit A → List (Issued statements) → Prop := fun _ _ => True

theorem hashPassword_accounted (password : String) : (hashPassword env password).Safe (under env request) any log := by
  refine plain (fun _ => trivial) fun salt => ?_
  cases salt <;> exact trivial

theorem updateUserPassword_accounted (id : Nat) (hash : String) : (updateUserPassword id hash).Safe (under env request) any log := by
  refine plain (fun _ => trivial) fun r => ?_
  cases r with
  | error _ => exact trivial
  | ok _ => exact plain (fun _ => trivial) fun _ => trivial

/-- A password is hashed and the hash is used. -/
theorem hashed {k : String → Act Unit} (password : String) (onward : ∀ hash log, (k hash).Safe (under env request) any log) :
    Safe (under env request) ((hashPassword env password).bind fun hash => match hash with
      | none => .done ()
      | some hash => k hash) any log := by
  refine Safe.bind _ (hashPassword_accounted password) (fun hash log _ => ?_) fun _ _ _ => trivial
  cases hash with
  | none => exact trivial
  | some hash => exact onward hash log

theorem usersAdd_accounted (username password : String) (role : Role) :
    (usersAdd env username password role).Safe (under env request) any log := by
  unfold usersAdd
  split
  · exact trivial
  · exact hashed password fun hash log => plain (fun _ => trivial) fun _ => trivial

theorem usersPasswd_accounted (username password : String) :
    (usersPasswd env username password).Safe (under env request) any log := by
  refine plain (fun _ => trivial) fun r => ?_
  cases r with
  | error _ => exact trivial
  | ok user => exact hashed password fun hash log => updateUserPassword_accounted user.id hash

theorem usersDelete_accounted (username : String) : (usersDelete username).Safe (under env request) any log := by
  refine plain (fun _ => trivial) fun r => ?_
  cases r with
  | error _ => exact trivial
  | ok user =>
    refine plain (fun _ => trivial) fun r => ?_
    cases r with
    | error _ => exact trivial
    | ok _ => exact plain (fun _ => trivial) fun _ => trivial

theorem seedAdmin_accounted (username password : String) :
    (seedAdmin env username password).Safe (under env request) any log := by
  refine plain (fun _ => trivial) fun r => ?_
  cases r with
  | ok existing =>
    show Safe _ (if _ then _ else _) _ _
    split
    · exact trivial
    · exact hashed password fun hash log => updateUserPassword_accounted existing.id hash
  | error e =>
    cases e with
    | notFound => exact hashed password fun hash log => plain (fun _ => trivial) fun _ => trivial
    | _ => exact trivial

theorem housekeeping_accounted : housekeeping.Safe (under env request) any log :=
  plain (fun _ => trivial) fun _ => plain (fun _ => trivial) fun _ => trivial

/-- The last statement of a log. -/
theorem mem_snoc {log : List (Issued statements)} {e : Issued statements} : e ∈ log ++ [e] := by simp

theorem mem_earlier {log : List (Issued statements)} {e last : Issued statements} (listed : e ∈ log) : e ∈ log ++ [last] :=
  List.mem_append_left _ listed

theorem login_accounted {v : Visit} {b : Body} (body : v.body = some b) : (login env b).Safe (under env (.visit v)) any log := by
  refine plain (fun _ => trivial) fun pass => ?_
  cases pass with
  | false => exact trivial
  | true =>
    refine plain (fun _ => trivial) fun r => ?_
    cases r with
    | error _ => exact trivial
    | ok user =>
      show Safe _ (if _ then _ else _) _ _
      split
      · exact trivial
      · rename_i matched
        have checked : env.checkPassword user.passwordHash b.password = true := by simpa using matched
        refine plain (fun _ => trivial) fun drawn => ?_
        cases drawn with
        | none => exact trivial
        | some token =>
          refine plain (fun _ => trivial) fun now => Safe.told ?_ fun _ => trivial
          refine ⟨v, user, token, _, rfl, ⟨b, body, ?_, checked⟩, mem_earlier mem_snoc, rfl⟩
          exact mem_earlier (mem_earlier mem_snoc)

theorem logout_accounted (cookie : Option String) : (logout env cookie).Safe (under env request) any log := by
  cases cookie with
  | none => exact trivial
  | some token =>
    show Safe _ (if _ then _ else _) _ _
    split
    · exact trivial
    · exact plain (fun _ => trivial) fun _ => trivial

/-- What `authenticate` returns is a user that it has found. -/
def finds (env : Env) (v : Visit) : Except Unit (Option Principal) → List (Issued statements) → Prop := fun r log =>
  ∀ principal, r = .ok (some principal) → Authenticated env v (· ∈ log) principal

theorem finds_none {v : Visit} : finds env v (.ok none) log := nofun

theorem currentUser_accounted {v : Visit} (unborn : v.bearer = none) :
    (currentUser env v.cookie).Safe (under env (.visit v)) (finds env v) log := by
  cases cookie : v.cookie with
  | none => exact finds_none
  | some token =>
    show Safe _ (if _ then _ else _) _ _
    split
    · exact finds_none
    · refine plain (fun _ => trivial) fun r => ?_
      cases r with
      | error _ => exact finds_none
      | ok row =>
        refine plain (fun _ => trivial) fun (now : Time) => ?_
        show Safe _ (if _ then _ else _) _ _
        split
        · exact plain (fun _ => trivial) fun _ => finds_none
        · rename_i later
          refine plain (fun _ => trivial) fun r => ?_
          cases r with
          | error _ => exact finds_none
          | ok account =>
            rintro principal ⟨⟩
            exact .cookie token row now account unborn cookie (mem_earlier (mem_earlier mem_snoc)) (mem_earlier mem_snoc) (not_le.mp later)
              mem_snoc rfl

theorem touch_accounted (t : APIToken) : (touch t).Safe (under env request) (fun _ log' => ∀ e ∈ log, e ∈ log') log := by
  refine plain (fun _ => trivial) fun now => ?_
  show Safe _ (if _ then _ else _) _ _
  split
  · exact plain (fun _ => trivial) fun later => plain (fun _ => trivial) fun _ => fun e listed =>
      mem_earlier (mem_earlier (mem_earlier listed))
  · exact fun e listed => mem_earlier listed

theorem authenticate_accounted (v : Visit) : (authenticate env v).Safe (under env (.visit v)) (finds env v) log := by
  unfold authenticate
  cases bearer : v.bearer with
  | none => exact currentUser_accounted bearer
  | some header =>
    show Safe _ (if _ then _ else _) _ _
    split
    · exact finds_none
    · refine plain (fun _ => trivial) fun r => ?_
      cases r with
      | error _ => exact finds_none
      | ok t =>
        refine plain (fun _ => trivial) fun (now : Time) => ?_
        show Safe _ (if _ then _ else _) _ _
        split
        · exact finds_none
        · rename_i valid
          refine Safe.bind _ (touch_accounted t) (fun _ log' kept => ?_) fun _ _ _ => nofun
          rintro principal ⟨⟩
          refine .bearer header t now bearer (kept _ (mem_earlier mem_snoc)) (kept _ mem_snoc) ?_ rfl
          intro expires listed
          have some : t.expiresAt = some expires := listed
          rw [some] at valid
          exact not_lt.mp (by simpa using valid)

theorem expiry_accounted (lifetime : Option Time) : (expiry lifetime).Safe (under env request) (fun _ log' => ∀ e ∈ log, e ∈ log') log := by
  cases lifetime with
  | none => exact fun e listed => listed
  | some d => exact plain (fun _ => trivial) fun now => fun e listed => mem_earlier listed

theorem knownDAG_accounted (dagID : String) : (knownDAG dagID).Safe (under env request) (fun _ log' => ∀ e ∈ log, e ∈ log') log := by
  unfold knownDAG
  split
  · exact fun e listed => listed
  · refine plain (fun _ => trivial) fun r => ?_
    cases r with
    | error _ => exact fun e listed => mem_earlier listed
    | ok _ => exact fun e listed => mem_earlier listed

theorem createToken_accounted (b : Body) (granted : Granted env request (· ∈ log) .createToken) :
    (createToken env b).Safe (under env request) any log := by
  unfold createToken
  simp only
  split
  · exact trivial
  · split
    · refine Safe.bind _ (expiry_accounted _) (fun expires log kept => ?_) fun _ _ _ => trivial
      refine Safe.bind _ (knownDAG_accounted _) (fun known log' kept' => ?_) fun _ _ _ => trivial
      have granted := (granted.mono kept).mono kept'
      split
      · exact trivial
      · refine plain (fun _ => trivial) fun drawn => ?_
        cases drawn with
        | none => exact trivial
        | some text => exact Safe.told (.inr (granted.mono fun _ => mem_earlier)) fun _ => trivial
    · exact trivial

theorem deleteToken_accounted (id : List Char) : (deleteToken id).Safe (under env request) any log := by
  unfold deleteToken
  split
  · exact trivial
  · exact plain (fun _ => trivial) fun _ => trivial

theorem setDagHook_accounted (dagID : String) (granted : Granted env request (· ∈ log) .setDagHook) :
    (setDagHook env dagID).Safe (under env request) any log := by
  refine plain (fun _ => trivial) fun r => ?_
  cases r with
  | error _ => exact trivial
  | ok _ =>
    refine plain (fun _ => trivial) fun drawn => ?_
    cases drawn with
    | none => exact trivial
    | some text => exact Safe.told ((granted.mono fun _ => mem_earlier).mono fun _ => mem_earlier) fun _ => trivial

theorem createWorkerToken_accounted (body : Option Body) (actor : String) (granted : Granted env request (· ∈ log) .createWorkerToken) :
    (createWorkerToken env body actor).Safe (under env request) any log := by
  unfold createWorkerToken
  simp only
  split
  · exact trivial
  · split
    · exact trivial
    · split
      · exact trivial
      · refine plain (fun _ => trivial) fun drawn => ?_
        cases drawn with
        | none => exact trivial
        | some text =>
          refine plain (fun _ => trivial) fun now => Safe.told ?_ fun _ => trivial
          exact .inr ((granted.mono fun _ => mem_earlier).mono fun _ => mem_earlier)

theorem tokensCreate_accounted (onHost : request.onHost = true) (name : String) (role : Role) :
    (tokensCreate env name role).Safe (under env request) any log := by
  unfold tokensCreate
  split
  · exact trivial
  · refine plain (fun _ => trivial) fun drawn => ?_
    cases drawn with
    | none => exact trivial
    | some text => exact Safe.told (.inl onHost) fun _ => trivial

theorem seedJoinTokens_accounted (onHost : request.onHost = true) (tokens : List String) :
    (seedJoinTokens env tokens).Safe (under env request) any log := by
  induction tokens generalizing log with
  | nil => exact trivial
  | cons token tokens ih =>
    unfold seedJoinTokens
    split
    · exact ih
    · exact plain (fun _ => trivial) fun now => Safe.told (.inl onHost) fun _ => ih

theorem hookTrigger_accounted {v : Visit} {dag secret : List Char}
    (found : v.request.route env.web = some (.hookTrigger, [dag, secret])) :
    (hookTrigger env (String.ofList dag) (String.ofList secret)).Safe (under env (.visit v)) any log := by
  refine plain (fun _ => trivial) fun pass => ?_
  cases pass with
  | false => exact trivial
  | true =>
    refine plain (fun _ => trivial) fun r => ?_
    cases r with
    | error _ => exact trivial
    | ok hook =>
      show Safe _ (if _ then _ else _) _ _
      split
      · rename_i matched
        refine Safe.told ?_ fun _ => trivial
        exact ⟨v, hook, _, secret, rfl, found, by rw [String.toList_ofList], mem_snoc, matched⟩
      · exact trivial

theorem joinWorker_accounted (body : Option Body) : (joinWorker env body).Safe (under env request) any log := by
  unfold joinWorker
  split
  · exact trivial
  · refine plain (fun _ => trivial) fun pass => ?_
    cases pass with
    | false => exact trivial
    | true =>
      cases body with
      | none => exact trivial
      | some b =>
        show Safe _ (if _ then _ else _) _ _
        split
        · exact trivial
        · refine plain (fun _ => trivial) fun now => plain (fun _ => trivial) fun r => ?_
          cases r with
          | error _ => exact trivial
          | ok _ =>
            refine plain (fun _ => trivial) fun drawn => ?_
            cases drawn with
            | none => exact trivial
            | some text =>
              show Safe _ (if _ then _ else _) _ _
              split
              · exact trivial
              · exact Safe.told ⟨_, now, mem_earlier mem_snoc⟩ fun _ => trivial

/-- A handler that grants needs an administrator; the others need nobody. -/
theorem handle_accounted {v : Visit} (actor : String)
    (granted : ∀ h params, v.request.route env.web = some (h, params) → grants h = true → Granted env (.visit v) (· ∈ log) h) :
    (handle env v actor).Safe (under env (.visit v)) any log := by
  unfold handle
  split
  · cases body : v.body with
    | none => exact trivial
    | some b => exact login_accounted body
  · exact logout_accounted _
  · rename_i found
    cases v.body with
    | none => exact trivial
    | some b => exact createToken_accounted b (granted _ _ found rfl)
  · exact deleteToken_accounted _
  · rename_i found
    exact setDagHook_accounted _ (granted _ _ found rfl)
  · exact plain (fun _ => trivial) fun _ => trivial
  · rename_i found
    exact hookTrigger_accounted found
  · rename_i found
    exact createWorkerToken_accounted _ _ (granted _ _ found rfl)
  · exact joinWorker_accounted _
  · exact trivial

/-- A request that is handed on without a user goes to a public path. -/
theorem isPublic_of_open {a : Api.Arrival} (enabled : a.enabled = true) (passed : Api.withAuth a = .open_) :
    Api.isPublic a.request.path = true := by
  simp only [Api.withAuth, enabled] at passed
  split at passed
  · rename_i off
    cases off
  · split at passed
    · cases passed
    · split at passed
      · assumption
      · split at passed
        · cases passed
        · split at passed <;> cases passed

theorem letThrough_of_admitted {a : Api.Arrival} {user other : User} (given : a.user = some user) (enabled : a.enabled = true)
    (passed : Api.withAuth a = .admitted other) : user.letThrough a.request := by
  have same : other = user := by
    have kept := passed
    simp only [Api.withAuth, enabled, given] at kept
    split at kept
    · cases kept
    · split at kept
      · cases kept
      · split at kept
        · cases kept
        · split at kept <;> cases kept
          rfl
  exact ⟨a, rfl, given, same ▸ passed⟩

theorem visit_accounted (v : Visit) : (visit env v).Safe (under env (.visit v)) any [] := by
  unfold visit
  split
  · rename_i passed
    refine handle_accounted _ fun h params found granting => ?_
    have reachable : Api.isPublic v.request.path = true := isPublic_of_open rfl passed
    rw [(grants_paths found granting).1] at reachable
    cases reachable
  · refine Safe.bind _ (authenticate_accounted v) (fun user log found => ?_) fun _ _ _ => trivial
    cases user with
    | none => exact trivial
    | some principal =>
      dsimp only
      split
      · rename_i passed
        have through := letThrough_of_admitted rfl rfl passed
        refine Safe.told ⟨v, rfl, found principal rfl, through⟩ fun _ => handle_accounted _ fun h params route granting => ?_
        exact ⟨v, principal, params, rfl, mem_snoc, route, admin_of_grants through route granting⟩
      · exact trivial
  · exact trivial

theorem program_accounted : ∀ request, (program env request).Safe (under env request) any []
  | .visit v => visit_accounted v
  | .usersAdd _ _ _ => usersAdd_accounted _ _ _
  | .usersPasswd _ _ => usersPasswd_accounted _ _
  | .usersDelete _ => usersDelete_accounted _
  | .seedAdmin _ _ => seedAdmin_accounted _ _
  | .tokensCreate _ _ => tokensCreate_accounted rfl _ _
  | .tokensDelete _ => deleteToken_accounted _
  | .seedJoinTokens _ => seedJoinTokens_accounted rfl _
  | .housekeeping => housekeeping_accounted

end Handlers

/-- Every statement of every history is accounted for by earlier ones of its request. -/
theorem Reached.accounted {p : State} (reached : Reached env p) :
    Accounts (fun before (e : Entry) => Accounted env e.1 (fun x => (e.1, x) ∈ before) e.2.1) p.history := by
  have told : ∀ request, (program env request).Safe
      (telling fun (o : Op) log => ∀ _ : o.Reply, Accounted env request (· ∈ log) o) (fun _ _ => True) [] := fun request =>
    (program_accounted request).weaken (fun _ _ _ _ _ stepped => stepped) (fun _ holds => holds) (fun _ _ same => same)
      fun _ _ _ permitted _ => permitted
  exact reached.accounts (fun request seen e => Accounted env request seen e.1) (fun _ _ _ _ more accounted => accounted.mono more)
    told ⟨rfl, rfl⟩

end Cronova.Auth
