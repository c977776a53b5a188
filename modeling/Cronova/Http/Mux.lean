import Cronova.Http.Path

/-! A multiplexer of requests by method and pattern: `http.ServeMux` without hosts.

A literal segment is tried before a wildcard and a wildcard before the rest of the path, as the
routing tree does; a search that fails below one goes on with the next.
-/

set_option autoImplicit false

namespace Cronova.Http

/-- A segment of a pattern; `rest` is its trailing slash. -/
inductive Part where
  | lit (text : String)
  | wild (name : String)
  | rest
  deriving DecidableEq

instance : Coe String Part := ⟨.lit⟩

/-- A pattern; without a method it serves every one. -/
structure Route (H : Type) where
  method : Option String
  parts : List Part
  handler : H

variable {H : Type}

/-- The branches of the tree below a segment of the pattern. -/
def below (takes : Part → Bool) (branches : List (List Part × H)) : List (List Part × H) :=
  branches.filterMap fun (parts, handler) =>
    match parts with
    | part :: parts => if takes part then some (parts, handler) else none
    | [] => none

def endsWith (parts : List Part) (branches : List (List Part × H)) : Option H := (branches.find? (·.1 = parts)).map (·.2)

def Part.isLit (part : Part) (segment : List Char) : Bool :=
  match part with
  | lit text => text.toList == segment
  | _ => false

def Part.isWild : Part → Bool
  | wild _ => true
  | _ => false

/-- `matchPath`: the handler of the best pattern and what its wildcards stand for. The last segment
of a path with a trailing slash is empty, and no wildcard stands for it. -/
def find (branches : List (List Part × H)) : List (List Char) → Option (H × List (List Char))
  | [] => (endsWith [] branches).map fun handler => (handler, [])
  | segment :: segments =>
    let literal := find (below (·.isLit segment) branches) segments
    let wildcard :=
      if segments = [] ∧ segment = [] then none
      else (find (below (·.isWild) branches) segments).map fun (handler, params) => (handler, segment :: params)
    (literal.or wildcard).or ((endsWith [.rest] branches).map fun handler => (handler, []))

theorem find_cons (branches : List (List Part × H)) (segment : List Char) (segments : List (List Char)) :
    find branches (segment :: segments) =
      ((find (below (·.isLit segment) branches) segments).or
        (if segments = [] ∧ segment = [] then none
        else (find (below (·.isWild) branches) segments).map fun (handler, params) => (handler, segment :: params))).or
          ((endsWith [.rest] branches).map fun handler => (handler, [])) := rfl

/-- A literal is taken before anything else. -/
theorem find_of_literal {branches : List (List Part × H)} {segment : List Char} {segments : List (List Char)} {found : H × List (List Char)}
    (inner : find (below (·.isLit segment) branches) segments = some found) : find branches (segment :: segments) = some found := by
  rw [find_cons, inner]
  rfl

/-- The patterns of one method. -/
def served (routes : List (Route H)) (method : Option String) : List (List Part × H) :=
  (routes.filter fun r => r.method = method).map fun r => (r.parts, r.handler)

/-- `matchMethodAndPath`. -/
def dispatch (routes : List (Route H)) (method : String) (segments : List (List Char)) : Option (H × List (List Char)) :=
  let exact := find (served routes (some method)) segments
  let head := if method = "HEAD" then find (served routes (some "GET")) segments else none
  (exact.or head).or (find (served routes none) segments)

/-! ### What is found -/

/-- A path fits a pattern, with the segments that its wildcards stand for. -/
inductive Fits : List Part → List (List Char) → List (List Char) → Prop where
  | done : Fits [] [] []
  | lit {parts segments params} (text : String) : Fits parts segments params → Fits (.lit text :: parts) (text.toList :: segments) params
  | wild {parts segments params} (name : String) (segment : List Char) : Fits parts segments params →
      Fits (.wild name :: parts) (segment :: segments) (segment :: params)
  | rest (segment : List Char) (segments : List (List Char)) : Fits [.rest] (segment :: segments) []

theorem fits_lit {text : String} {parts : List Part} {segments params : List (List Char)} (fits : Fits (.lit text :: parts) segments params) :
    ∃ rest, segments = text.toList :: rest ∧ Fits parts rest params := by
  cases fits with
  | lit _ inner => exact ⟨_, rfl, inner⟩

theorem fits_wild {name : String} {parts : List Part} {segments params : List (List Char)} (fits : Fits (.wild name :: parts) segments params) :
    ∃ segment rest others, segments = segment :: rest ∧ params = segment :: others ∧ Fits parts rest others := by
  cases fits with
  | wild _ segment inner => exact ⟨segment, _, _, rfl, rfl, inner⟩

theorem fits_nonempty {part : Part} {parts : List Part} {segments params : List (List Char)} (fits : Fits (part :: parts) segments params) :
    ∃ segment rest, segments = segment :: rest := by
  cases fits <;> exact ⟨_, _, rfl⟩

theorem fits_nil {segments params : List (List Char)} (fits : Fits [] segments params) : segments = [] := by
  cases fits
  rfl

/-- A pattern that ends with a literal fits paths that end with it. -/
theorem Fits.getLast {text : String} {parts : List Part} {segments params : List (List Char)} (fits : Fits parts segments params)
    (last : parts.getLast? = some (.lit text)) : segments.getLast? = some text.toList := by
  induction fits with
  | done => cases last
  | @lit parts segments params word inner ih =>
    cases parts with
    | nil =>
      obtain rfl := fits_nil inner
      cases last
      rfl
    | cons part parts =>
      obtain ⟨segment, rest, rfl⟩ := fits_nonempty inner
      rw [List.getLast?_cons_cons] at last ⊢
      exact ih last
  | @wild parts segments params name segment inner ih =>
    cases parts with
    | nil => cases last
    | cons part parts =>
      obtain ⟨segment, rest, rfl⟩ := fits_nonempty inner
      rw [List.getLast?_cons_cons] at last ⊢
      exact ih last
  | rest => cases last

theorem mem_below {takes : Part → Bool} {branches : List (List Part × H)} {parts : List Part} {handler : H}
    (found : (parts, handler) ∈ below takes branches) : ∃ part, takes part = true ∧ (part :: parts, handler) ∈ branches := by
  obtain ⟨⟨pattern, h⟩, listed, taken⟩ := List.mem_filterMap.mp found
  cases pattern with
  | nil => cases taken
  | cons part rest =>
    simp only at taken
    split at taken
    · cases taken
      exact ⟨part, ‹_›, listed⟩
    · cases taken

theorem mem_of_endsWith {branches : List (List Part × H)} {parts : List Part} {handler : H}
    (found : endsWith parts branches = some handler) : (parts, handler) ∈ branches := by
  obtain ⟨⟨pattern, h⟩, first, rfl⟩ := Option.map_eq_some_iff.mp found
  have same : pattern = parts := by simpa using List.find?_some first
  exact same ▸ List.mem_of_find?_eq_some first

/-- What is found belongs to a pattern that the path fits. -/
theorem find_fits {branches : List (List Part × H)} {segments : List (List Char)} {handler : H} {params : List (List Char)}
    (found : find branches segments = some (handler, params)) : ∃ parts, (parts, handler) ∈ branches ∧ Fits parts segments params := by
  induction segments generalizing branches handler params with
  | nil =>
    obtain ⟨h, last, same⟩ := Option.map_eq_some_iff.mp found
    cases same
    exact ⟨[], mem_of_endsWith last, .done⟩
  | cons segment segments ih =>
    simp only [find_cons, Option.or_eq_some_iff] at found
    rcases found with (literal | ⟨_, wildcard⟩) | ⟨_, rest⟩
    · obtain ⟨parts, inside, fits⟩ := ih literal
      obtain ⟨part, isLit, listed⟩ := mem_below inside
      cases part with
      | lit text =>
        obtain rfl : text.toList = segment := by simpa [Part.isLit] using isLit
        exact ⟨_, listed, .lit text fits⟩
      | wild name => cases isLit
      | rest => cases isLit
    · split at wildcard
      · cases wildcard
      · obtain ⟨⟨h, ps⟩, inner, same⟩ := Option.map_eq_some_iff.mp wildcard
        cases same
        obtain ⟨parts, inside, fits⟩ := ih inner
        obtain ⟨part, isWild, listed⟩ := mem_below inside
        cases part with
        | wild name => exact ⟨_, listed, .wild name segment fits⟩
        | lit text => cases isWild
        | rest => cases isWild
    · obtain ⟨h, last, same⟩ := Option.map_eq_some_iff.mp rest
      cases same
      exact ⟨_, mem_of_endsWith last, .rest segment segments⟩

/-- The method of a request is one that a pattern serves. -/
def Serves (route : Route H) (method : String) : Prop :=
  route.method = some method ∨ (method = "HEAD" ∧ route.method = some "GET") ∨ route.method = none

theorem mem_served {routes : List (Route H)} {method : Option String} {parts : List Part} {handler : H}
    (listed : (parts, handler) ∈ served routes method) : ⟨method, parts, handler⟩ ∈ routes := by
  obtain ⟨route, member, same⟩ := List.mem_map.mp listed
  obtain ⟨known, serves⟩ := List.mem_filter.mp member
  cases same
  have method : route.method = method := by simpa using serves
  exact method ▸ known

/-- A request goes to a route that serves its method and whose pattern its path fits. -/
theorem dispatch_fits {routes : List (Route H)} {method : String} {segments : List (List Char)} {handler : H} {params : List (List Char)}
    (found : dispatch routes method segments = some (handler, params)) :
    ∃ route ∈ routes, route.handler = handler ∧ Serves route method ∧ Fits route.parts segments params := by
  simp only [dispatch, Option.or_eq_some_iff] at found
  rcases found with (exact_ | ⟨_, head⟩) | ⟨_, any⟩
  · obtain ⟨parts, listed, fits⟩ := find_fits exact_
    exact ⟨_, mem_served listed, rfl, .inl rfl, fits⟩
  · split at head
    · obtain ⟨parts, listed, fits⟩ := find_fits head
      exact ⟨_, mem_served listed, rfl, .inr (.inl ⟨‹_›, rfl⟩), fits⟩
    · cases head
  · obtain ⟨parts, listed, fits⟩ := find_fits any
    exact ⟨_, mem_served listed, rfl, .inr (.inr rfl), fits⟩

end Cronova.Http
