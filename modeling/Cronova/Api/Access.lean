import Cronova.Api.Routes
import Cronova.Model.Definition
import Cronova.Parser.Document

/-! Who may write what: `withAuth` before the multiplexer (`internal/api/auth.go`).

The filter looks at the unescaped path and the multiplexer at its escaped segments, so the
first part relates the two.
-/

set_option autoImplicit false

namespace Cronova.Api

open Http Model

inductive Role where
  | admin | operator | viewer
  deriving DecidableEq

/-- The user of a request; `scope` is the DAG of a scoped token. -/
structure User where
  role : Role
  scope : String := ""

/-- A request by its escaped path, without the slash that it starts with. -/
structure Request where
  method : String
  rest : List Char
  plain : List Char
  read : unescape rest = some plain

/-- A request without escapes. -/
def plainRequest (method : String) (rest : List Char) (ordinary : '%' ∉ rest) : Request := ⟨method, rest, rest, unescape_ordinary ordinary⟩

/-- `r.URL.Path`. -/
def Request.path (req : Request) : List Char := '/' :: req.plain

def isPublic (path : List Char) : Bool :=
  ["/api/login", "/healthz", "/readyz", "/api/workers/join"].any (·.toList == path) ||
    "/api/hooks/".toList.isPrefixOf path || !"/api/".toList.isPrefixOf path

def isOperatorWrite (path : List Char) : Bool :=
  "/api/runs/".toList.isPrefixOf path || path == "/api/events".toList ||
    ("/api/dags/".toList.isPrefixOf path &&
      ["/trigger", "/backfill", "/pause"].any fun word => word.toList.isSuffixOf path)

def writeTargetsDag (path : List Char) (dag : String) : Bool :=
  match cutPrefix "/api/dags/".toList path with
  | some rest => unescape (firstSegment rest) == some dag.toList
  | none =>
    match cutPrefix "/api/runs/".toList path with
    | some rest => (unescape (firstSegment rest)).any fun run => (dag ++ "__").toList.isPrefixOf run
    | none => false

def isUnsafeMethod (method : String) : Bool := !(["GET", "HEAD", "OPTIONS"].contains method)

/-- The role and the scope of a user allow a write. -/
def User.mayWrite (user : User) (path : List Char) : Bool :=
  (user.role == .admin || (user.role == .operator && isOperatorWrite path)) && (user.scope == "" || writeTargetsDag path user.scope)

/-- A request with what `withAuth` finds out about it. -/
structure Arrival where
  request : Request
  enabled : Bool := true
  /-- It carries a bearer token. -/
  bearer : Bool
  sameOrigin : Bool
  /-- What `authenticate` answers. -/
  user : Option User

inductive Verdict where
  /-- Handed on without a user. -/
  | open_
  | forbidden
  | unauthorized
  | admitted (user : User)

def withAuth (a : Arrival) : Verdict :=
  let path := a.request.path
  if !a.enabled then .open_
  else if isUnsafeMethod a.request.method && !a.bearer && !a.sameOrigin then .forbidden
  else if isPublic path then .open_
  else
    match a.user with
    | none => .unauthorized
    | some user =>
      if a.request.method ≠ "GET" ∧ path ≠ "/api/logout".toList ∧ !user.mayWrite path then .forbidden else .admitted user

/-- `withAuth` hands the user's request on as the user's. -/
def User.letThrough (user : User) (req : Request) : Prop := ∃ a : Arrival, a.request = req ∧ a.user = some user ∧ withAuth a = .admitted user

/-- The path is what `cleanPath` makes of it. -/
def isClean (segs : List (List Char)) : Bool := segs.dropLast.all (· ≠ []) && segs.all fun seg => seg ≠ ['.'] && seg ≠ ['.', '.']

/-- The segments of the path as the multiplexer compares them. -/
def Request.decoded (req : Request) : List (List Char) := (segments req.rest).map fun seg => (unescape seg).getD seg

/-- Where the multiplexer sends a request; one whose path is not clean is redirected. -/
def Request.route (web : Bool) (req : Request) : Option (Handler × List (List Char)) :=
  if req.method ≠ "CONNECT" ∧ !isClean (segments req.rest) then none else dispatch (routes web) req.method req.decoded

/-! ### Paths of writes -/

/-- The segments that the multiplexer compares are those of the path that the filter sees. -/
theorem Request.decoded_join (req : Request) : join req.decoded = req.plain := by
  obtain ⟨segs, each, plain⟩ := unescape_segments req.read
  have decoded : req.decoded = segs := by
    rw [decoded, ← List.forall₂_eq_eq_eq, List.forall₂_map_left_iff]
    exact each.imp fun raw text read => by rw [read, Option.getD_some]
  rw [decoded, plain]

theorem Request.route_fits {web : Bool} {req : Request} {h : Handler} {params : List (List Char)} (found : req.route web = some (h, params)) :
    ∃ route ∈ routes web, route.handler = h ∧ Serves route req.method ∧ Fits route.parts req.decoded params := by
  unfold Request.route at found
  split at found
  · cases found
  · exact dispatch_fits found

theorem dags_plain : '/' ∉ "dags".toList := by decide

theorem runs_plain : '/' ∉ "runs".toList := by decide

section Prefixes

variable {seg word rest : List Char} {segs : List (List Char)}

theorem cut_word (free : '/' ∉ seg) (plain : '/' ∉ word) :
    cutPrefix ("/api/".toList ++ word ++ ['/']) ('/' :: join ("api".toList :: seg :: segs)) = some rest ↔
      seg = word ∧ segs ≠ [] ∧ join segs = rest := by
  rw [cutPrefix_eq_some, join_cons_cons, ← join_eq_word_slash free plain]
  simp

theorem cut_dags (free : '/' ∉ seg) :
    cutPrefix "/api/dags/".toList ('/' :: join ("api".toList :: seg :: segs)) = some rest ↔
      seg = "dags".toList ∧ segs ≠ [] ∧ join segs = rest := cut_word free dags_plain

theorem cut_runs (free : '/' ∉ seg) :
    cutPrefix "/api/runs/".toList ('/' :: join ("api".toList :: seg :: segs)) = some rest ↔
      seg = "runs".toList ∧ segs ≠ [] ∧ join segs = rest := cut_word free runs_plain

end Prefixes

/-- The pattern of a handler that changes something: it names a DAG or a run by its third segment,
or it has fixed words or another name there. -/
def writeShape (route : Route Handler) : Bool :=
  match route.handler.target, route.parts with
  | .nothing, _ => true
  | .dag, .lit "api" :: .lit word :: .wild _ :: _ => word ∈ ["dags", "hooks"]
  | .run, .lit "api" :: .lit word :: .wild _ :: _ :: _ => word == "runs"
  | .elsewhere, .lit "api" :: .lit word :: more =>
    !word.toList.contains '/' && word ≠ "runs" && word ≠ "logout" && (word ≠ "dags" || more = [] || (more = [.lit "build"] && route.handler = .buildDAG))
  | _, _ => false

theorem writeShape_routes : ∀ web, ∀ route ∈ routes web, writeShape route = true := by decide

/-- Where a handler that changes something is found. -/
inductive WritePath (h : Handler) : List (List Char) → List (List Char) → Prop where
  | dag {id more params} : h.target = .dag → WritePath h ("api".toList :: "dags".toList :: id :: more) (id :: params)
  | hook {id more params} : h.target = .dag → WritePath h ("api".toList :: "hooks".toList :: id :: more) (id :: params)
  | run {id next more params} : h.target = .run → WritePath h ("api".toList :: "runs".toList :: id :: next :: more) (id :: params)
  | create {params} : h.target = .elsewhere → WritePath h ["api".toList, "dags".toList] params
  | build {params} : h = .buildDAG → WritePath h ["api".toList, "dags".toList, "build".toList] params
  | other {word more params} : h.target = .elsewhere → '/' ∉ word → word ≠ "dags".toList → word ≠ "runs".toList →
      word ≠ "logout".toList → WritePath h ("api".toList :: word :: more) params

theorem writePath_of_fits {route : Route Handler} {segs params : List (List Char)} (shape : writeShape route = true)
    (writes : route.handler.target ≠ .nothing) (fits : Fits route.parts segs params) : WritePath route.handler segs params := by
  unfold writeShape at shape
  split at shape
  case h_1 nothing => exact absurd nothing writes
  case h_2 word name more target parts =>
    rw [parts] at fits
    obtain ⟨_, rfl, afterApi⟩ := fits_lit fits
    obtain ⟨_, rfl, afterWord⟩ := fits_lit afterApi
    obtain ⟨id, rest, others, rfl, rfl, _⟩ := fits_wild afterWord
    simp only [List.mem_cons, List.not_mem_nil, or_false, decide_eq_true_eq] at shape
    rcases shape with rfl | rfl
    · exact .dag target
    · exact .hook target
  case h_3 word name next more target parts =>
    rw [parts] at fits
    obtain ⟨_, rfl, afterApi⟩ := fits_lit fits
    obtain ⟨_, rfl, afterWord⟩ := fits_lit afterApi
    obtain ⟨id, rest, others, rfl, rfl, afterID⟩ := fits_wild afterWord
    obtain ⟨_, _, rfl⟩ := fits_nonempty afterID
    obtain rfl := beq_iff_eq.mp shape
    exact .run target
  case h_4 word more target parts =>
    rw [parts] at fits
    obtain ⟨_, rfl, afterApi⟩ := fits_lit fits
    obtain ⟨_, rfl, afterWord⟩ := fits_lit afterApi
    simp only [Bool.and_eq_true, Bool.or_eq_true, Bool.not_eq_true', decide_eq_true_eq, List.contains_eq_mem, decide_eq_false_iff_not] at shape
    obtain ⟨⟨⟨free, notRuns⟩, notLogout⟩, fixed⟩ := shape
    by_cases dags : word = "dags"
    · subst dags
      rcases fixed with (other | rfl) | ⟨rfl, build⟩
      · exact absurd rfl other
      · obtain rfl := fits_nil afterWord
        exact .create target
      · obtain ⟨_, rfl, last⟩ := fits_lit afterWord
        obtain rfl := fits_nil last
        exact .build build
    · exact .other target free (fun same => dags (String.toList_injective same)) (fun same => notRuns (String.toList_injective same))
        fun same => notLogout (String.toList_injective same)
  case h_5 => cases shape

theorem WritePath.api {h : Handler} {segs params : List (List Char)} (path : WritePath h segs params) :
    ∃ word more, segs = "api".toList :: word :: more ∧ '/' ∉ word ∧ word ≠ "logout".toList := by
  cases path with
  | dag | hook | run | create | build => exact ⟨_, _, rfl, by decide, by decide⟩
  | other _ free _ _ logout => exact ⟨_, _, rfl, free, logout⟩

/-- Nothing is changed by the handlers of a read. -/
theorem reads_change_nothing : ∀ web, ∀ route ∈ routes web, route.method = some "GET" ∨ route.method = none →
    route.handler.target = .nothing := by decide

theorem User.letThrough.passes {user : User} {req : Request} (through : user.letThrough req) :
    isPublic req.path = false ∧ (req.method = "GET" ∨ req.path = "/api/logout".toList ∨ user.mayWrite req.path = true) := by
  obtain ⟨a, rfl, known, admitted⟩ := through
  simp only [withAuth, known] at admitted
  split at admitted
  · cases admitted
  · split at admitted
    · cases admitted
    · split at admitted
      · cases admitted
      · rename_i notPublic
        refine ⟨Bool.eq_false_iff.mpr notPublic, ?_⟩
        split at admitted
        · cases admitted
        · rename_i allowed
          by_contra refused
          simp only [not_or, Bool.not_eq_true] at refused
          exact allowed ⟨refused.1, refused.2.1, by rw [refused.2.2]; rfl⟩

theorem letThrough_of_mayWrite {user : User} {req : Request} (notPublic : isPublic req.path = false) (may : user.mayWrite req.path = true) :
    user.letThrough req := by
  refine ⟨⟨req, true, true, true, some user⟩, rfl, rfl, ?_⟩
  simp [withAuth, notPublic, may]

/-- A write that is let through changes something only where the user may write. -/
theorem User.letThrough.writes {web : Bool} {user : User} {req : Request} {h : Handler} {params : List (List Char)}
    (through : user.letThrough req) (found : req.route web = some (h, params)) (writes : h.target ≠ .nothing) :
    isPublic req.path = false ∧ user.mayWrite req.path = true ∧ WritePath h req.decoded params := by
  obtain ⟨notPublic, passes⟩ := through.passes
  obtain ⟨route, listed, rfl, serves, fits⟩ := Request.route_fits found
  have path := writePath_of_fits (writeShape_routes web route listed) writes fits
  refine ⟨notPublic, ?_, path⟩
  rcases passes with get | logout | may
  · refine absurd (reads_change_nothing web route listed ?_) writes
    rw [get] at serves
    rcases serves with same | ⟨head, _⟩ | none
    · exact .inl same
    · exact absurd head (by decide)
    · exact .inr none
  · obtain ⟨word, more, decoded, free, other⟩ := path.api
    rw [Request.path, ← req.decoded_join, decoded, join_cons_cons] at logout
    have same : join (word :: more) = "logout".toList := List.append_cancel_left (show "/api/".toList ++ _ = "/api/".toList ++ _ from logout)
    have first := congrArg firstSegment same
    rw [firstSegment_join free] at first
    exact absurd (first.trans (by decide)) other
  · exact may

end Cronova.Api
