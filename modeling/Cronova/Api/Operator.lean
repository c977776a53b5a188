import Cronova.Api.Access

/-! What the operator role writes.

`isOperatorWrite` knows a run-driving path of a DAG by its last word, and the multiplexer takes that
word for the id of a DAG where nothing follows it.
-/

set_option autoImplicit false

namespace Cronova.Api

open Http

/-- A write of the user that goes to a handler is one of a handler that drives runs. -/
def OnlyDrives (user : User) (req : Request) : Prop :=
  user.letThrough req → ∀ (web : Bool) (h : Handler) (params : List (List Char)), req.route web = some (h, params) →
    h.target ≠ .nothing → h.drives = true

/-- The words by which `isOperatorWrite` knows a run-driving path of a DAG. -/
def driveWords : List String := ["trigger", "backfill", "pause"]

theorem driveWords_plain : ∀ word ∈ driveWords, '/' ∉ word.toList := by decide

/-- The id is one of the words, or ends with one after a slash. -/
def EndsInWord (id : List Char) : Prop := ∃ word ∈ driveWords, '/' :: word.toList <:+ '/' :: id

instance (id : List Char) : Decidable (EndsInWord id) := inferInstanceAs (Decidable (∃ _ ∈ _, _))

/-- The request deletes a DAG whose id reads like a run-driving path. -/
def Misread (user : User) (req : Request) : Prop :=
  req.method = "DELETE" ∧ ∃ id, req.decoded = ["api".toList, "dags".toList, id] ∧ EndsInWord id ∧
    (user.scope = "" ∨ writeTargetsDag req.path user.scope = true)

/-! ### Paths of the operator -/

section Paths

variable {seg : List Char} {segs : List (List Char)}

theorem events_path (free : '/' ∉ seg) :
    '/' :: join ("api".toList :: seg :: segs) = "/api/events".toList ↔ seg = "events".toList ∧ segs = [] := by
  rw [join_cons_cons]
  constructor
  · intro same
    have tails : join (seg :: segs) = "events".toList := List.append_cancel_left (show "/api/".toList ++ _ = "/api/".toList ++ _ from same)
    cases segs with
    | nil => exact ⟨by rw [← tails, join_singleton], rfl⟩
    | cons next segs =>
      have slash : '/' ∈ "events".toList := by
        rw [← tails, join_cons_cons]
        simp
      exact absurd slash (by decide)
  · rintro ⟨rfl, rfl⟩
    decide

theorem isOperatorWrite_iff (free : '/' ∉ seg) :
    isOperatorWrite ('/' :: join ("api".toList :: seg :: segs)) = true ↔
      (seg = "runs".toList ∧ segs ≠ []) ∨ (seg = "events".toList ∧ segs = []) ∨
        (seg = "dags".toList ∧ segs ≠ [] ∧ ∃ word ∈ driveWords, '/' :: word.toList <:+ '/' :: join ("api".toList :: seg :: segs)) := by
  have runs : "/api/runs/".toList.isPrefixOf ('/' :: join ("api".toList :: seg :: segs)) = true ↔ seg = "runs".toList ∧ segs ≠ [] := by
    rw [starts_iff_cut]
    simp only [cut_runs free]
    simp
  have dags : "/api/dags/".toList.isPrefixOf ('/' :: join ("api".toList :: seg :: segs)) = true ↔ seg = "dags".toList ∧ segs ≠ [] := by
    rw [starts_iff_cut]
    simp only [cut_dags free]
    simp
  simp only [isOperatorWrite, Bool.or_eq_true, Bool.and_eq_true, beq_iff_eq, runs, dags, events_path free, or_assoc, and_assoc]
  simp [driveWords]

end Paths

/-! ### Handlers that configure -/

/-- The words that end the patterns of handlers that configure DAGs. -/
def lastWords : List String := ["dags", "build", "hook", "restore"]

theorem lastWords_differ : ∀ last ∈ lastWords, '/' ∉ last.toList ∧ ∀ drive ∈ driveWords, last.toList ≠ drive.toList := by decide

/-- The pattern of a handler that configures something: the deletion of a DAG, a path below the DAGs
that ends with another word, or a path that is no DAG's, no run's and not that of the events. -/
def configShape (route : Route Handler) : Bool :=
  match route.parts with
  | [.lit "api", .lit "dags", .wild _] => route.method = some "DELETE"
  | .lit "api" :: .lit word :: more =>
    !word.toList.contains '/' && word ≠ "runs" && word ≠ "events" &&
      (word ≠ "dags" || lastWords.any fun last => (.lit word :: more).getLast? = some (.lit last))
  | _ => false

theorem configShape_routes : ∀ web, ∀ route ∈ routes web, route.handler.configures = true → configShape route = true := by
  decide +kernel

/-- A handler that configures is found on a path that the operator may write only where it deletes a
DAG. -/
theorem deletes_of_configShape {route : Route Handler} {segs params : List (List Char)} (shape : configShape route = true)
    (fits : Fits route.parts segs params) (may : isOperatorWrite ('/' :: join segs) = true) :
    route.method = some "DELETE" ∧ ∃ id, segs = ["api".toList, "dags".toList, id] ∧ EndsInWord id := by
  unfold configShape at shape
  split at shape
  case h_1 name parts =>
    rw [parts] at fits
    obtain ⟨_, rfl, afterApi⟩ := fits_lit fits
    obtain ⟨_, rfl, afterWord⟩ := fits_lit afterApi
    obtain ⟨id, rest, others, rfl, rfl, last⟩ := fits_wild afterWord
    obtain rfl := fits_nil last
    refine ⟨of_decide_eq_true shape, id, rfl, ?_⟩
    rcases (isOperatorWrite_iff dags_plain).mp may with ⟨other, _⟩ | ⟨other, _⟩ | ⟨_, _, word, listed, ends⟩
    · exact absurd other (by decide)
    · exact absurd other (by decide)
    · obtain ⟨front, same⟩ := slash_join_last (show ["api".toList, "dags".toList, id].getLast? = some id from rfl)
      rw [same, slash_suffix_last (driveWords_plain word listed)] at ends
      exact ⟨word, listed, ends⟩
  case h_2 word more other parts =>
    simp only [Bool.and_eq_true, Bool.or_eq_true, Bool.not_eq_true', decide_eq_true_eq, List.contains_eq_mem, decide_eq_false_iff_not] at shape
    obtain ⟨⟨⟨free, notRuns⟩, notEvents⟩, fixed⟩ := shape
    have fitsWord := fits
    rw [parts] at fitsWord
    obtain ⟨_, rfl, afterApi⟩ := fits_lit fitsWord
    obtain ⟨_, rfl, afterWord⟩ := fits_lit afterApi
    rcases (isOperatorWrite_iff free).mp may with ⟨runs, _⟩ | ⟨events, _⟩ | ⟨dags, _, drive, listed, ends⟩
    · exact absurd (String.toList_injective runs) notRuns
    · exact absurd (String.toList_injective events) notEvents
    · obtain ⟨last, known, same⟩ := List.any_eq_true.mp (fixed.resolve_left (not_not_intro (String.toList_injective dags)))
      have final := fits.getLast (by rw [parts, List.getLast?_cons_cons]; exact of_decide_eq_true same)
      obtain ⟨front, path⟩ := slash_join_last final
      obtain ⟨plain, differs⟩ := lastWords_differ last known
      rw [path, slash_suffix plain (driveWords_plain drive listed)] at ends
      exact absurd ends (differs drive listed)
  case h_3 => cases shape

/-! ### The deletion of a DAG -/

theorem deletes_below : ∀ web, below (·.isLit "dags".toList) (below (·.isLit "api".toList) (served (routes web) (some "DELETE"))) =
    [([.wild "id"], .deleteDAG), ([.wild "id", .lit "hook"], .deleteDagHook)] := by decide +kernel

theorem delete_dispatched (web : Bool) {id : List Char} (nonempty : id ≠ []) :
    dispatch (routes web) "DELETE" ["api".toList, "dags".toList, id] = some (.deleteDAG, [id]) := by
  have found : find (served (routes web) (some "DELETE")) ["api".toList, "dags".toList, id] = some (.deleteDAG, [id]) := by
    apply find_of_literal
    apply find_of_literal
    rw [deletes_below, find_cons, if_neg (fun both => nonempty both.2)]
    rfl
  rw [dispatch, found]
  rfl

theorem EndsInWord.plain {id : List Char} (ends : EndsInWord id) : id ≠ [] ∧ id ≠ ['.'] ∧ id ≠ ['.', '.'] := by
  obtain ⟨word, listed, suffix⟩ := ends
  simp only [driveWords, List.mem_cons, List.not_mem_nil, or_false] at listed
  have short := suffix.length_le
  refine ⟨?_, ?_, ?_⟩ <;> rintro rfl <;> rcases listed with rfl | rfl | rfl <;> exact absurd short (by decide)

theorem unescape_short : ∀ seg ∈ [[], ['.'], ['.', '.']], (unescape seg).getD seg = seg := by decide

theorem isClean_of_decoded {req : Request} {id : List Char} (decoded : req.decoded = ["api".toList, "dags".toList, id]) (ends : EndsInWord id) :
    isClean (segments req.rest) = true := by
  obtain ⟨api, afterApi, raw, first, more⟩ := List.map_eq_cons_iff.mp decoded
  obtain ⟨dags, afterDags, rfl, second, more⟩ := List.map_eq_cons_iff.mp more
  obtain ⟨last, others, rfl, third, more⟩ := List.map_eq_cons_iff.mp more
  obtain rfl := List.map_eq_nil_iff.mp more
  -- a segment that is empty or made of dots stands for itself, and none of the three does
  have keeps {seg text : List Char} (same : (unescape seg).getD seg = text) (other : text ∉ [[], ['.'], ['.', '.']]) :
      seg ∉ [[], ['.'], ['.', '.']] := by
    intro short
    rw [unescape_short seg short] at same
    exact other (same ▸ short)
  have api := keeps first (by decide)
  have dags := keeps second (by decide)
  have last := keeps third (by simpa using ends.plain)
  simp only [List.mem_cons, List.not_mem_nil, or_false, not_or] at api dags last
  rw [raw]
  simp [isClean, api, dags, last]

theorem Misread.deletes {user : User} {req : Request} (operator : user.role = .operator) (misread : Misread user req) : ¬ OnlyDrives user req := by
  obtain ⟨delete, id, decoded, ends, scope⟩ := misread
  have path : req.path = '/' :: join ["api".toList, "dags".toList, id] := by rw [Request.path, ← req.decoded_join, decoded]
  have notPublic : isPublic req.path = false := by
    rw [path]
    simp [isPublic, List.isPrefixOf, join_cons_cons]
  have driving : isOperatorWrite req.path = true := by
    rw [path]
    obtain ⟨word, listed, suffix⟩ := ends
    obtain ⟨front, same⟩ := slash_join_last (show ["api".toList, "dags".toList, id].getLast? = some id from rfl)
    refine (isOperatorWrite_iff dags_plain).mpr (.inr (.inr ⟨rfl, by simp, word, listed, ?_⟩))
    rw [same, slash_suffix_last (driveWords_plain word listed)]
    exact suffix
  have may : user.mayWrite req.path = true := by
    simp only [User.mayWrite, operator, driving, Bool.and_eq_true, Bool.or_eq_true, beq_iff_eq]
    exact ⟨.inr ⟨trivial, trivial⟩, scope⟩
  have found : req.route false = some (.deleteDAG, [id]) := by
    rw [Request.route, isClean_of_decoded decoded ends, if_neg (by simp), decoded, delete]
    exact delete_dispatched false ends.plain.1
  intro drives
  exact absurd (drives (letThrough_of_mayWrite notPublic may) false _ _ found (by decide)) (by decide)

/-- A write of the operator is one that drives runs, whatever its method and path, unless it deletes a
DAG whose id reads like the last word of a run-driving path. -/
theorem onlyDrives_iff {user : User} (operator : user.role = .operator) (req : Request) : OnlyDrives user req ↔ ¬ Misread user req := by
  constructor
  · exact fun drives misread => misread.deletes operator drives
  · intro notMisread through web h params found writes
    by_contra idle
    have configures : h.configures = true := by
      rw [Handler.configures, Bool.eq_false_iff.mpr idle]
      simpa using writes
    obtain ⟨_, may, _⟩ := through.writes found writes
    obtain ⟨route, listed, rfl, serves, fits⟩ := Request.route_fits found
    simp only [User.mayWrite, operator, Bool.and_eq_true, Bool.or_eq_true, beq_iff_eq] at may
    have driving := may.1.resolve_left (by decide)
    rw [Request.path, ← req.decoded_join] at driving
    obtain ⟨delete, id, decoded, ends⟩ := deletes_of_configShape (configShape_routes web route listed configures) fits driving.2
    refine notMisread ⟨?_, id, decoded, ends, may.2⟩
    rcases serves with same | ⟨_, get⟩ | none
    · rw [delete] at same
      exact (Option.some.inj same).symm
    · rw [delete] at get
      exact absurd get (by decide)
    · rw [delete] at none
      cases none

/-- The deletion of a DAG. -/
def deletion (id : String) (ordinary : '%' ∉ ("api/dags/" ++ id).toList) : Request :=
  plainRequest "DELETE" ("api/dags/" ++ id).toList ordinary

/-- An operator does not delete `etl`, and does delete `trigger`. -/
theorem onlyDrives_deletion :
    OnlyDrives ⟨.operator, ""⟩ (deletion "etl" (by decide)) ∧ ¬ OnlyDrives ⟨.operator, ""⟩ (deletion "trigger" (by decide)) := by
  refine ⟨(onlyDrives_iff rfl _).mpr ?_, fun drives => ?_⟩
  · rintro ⟨_, id, decoded, ends⟩
    have third : ["api".toList, "dags".toList, "etl".toList] = ["api".toList, "dags".toList, id] := by
      rw [← decoded]
      decide +kernel
    cases third
    exact absurd ends (by decide +kernel)
  · refine (onlyDrives_iff rfl _).mp drives ⟨rfl, "trigger".toList, ?_, ?_, .inl rfl⟩
    · decide +kernel
    · exact ⟨"trigger", by decide, List.suffix_rfl⟩

/-- Not every write of an operator drives runs. -/
theorem not_always_drives : ¬ ∀ (user : User) (req : Request), user.role = .operator → OnlyDrives user req := by
  intro drives
  refine Misread.deletes rfl ⟨rfl, "trigger".toList, ?_, ?_, .inl rfl⟩ (drives ⟨.operator, ""⟩ (deletion "trigger" (by decide)) rfl)
  · decide +kernel
  · exact ⟨"trigger", by decide, List.suffix_rfl⟩

end Cronova.Api
