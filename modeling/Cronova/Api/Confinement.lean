import Cronova.Api.Access
import Cronova.Parser.Identifier

/-! Tokens that are scoped to a DAG.

`writeTargetsDag` compares a segment of the path with the DAG of the token. It lets a write
through to another DAG in two cases: where the id and two underscores begin the other DAG's run
ids as well, and where the id is the word of a route.
-/

set_option autoImplicit false

namespace Cronova.Api

open Http Model Cronova.Parser

section Paths

variable {segs : List (List Char)}

/-- A write within a DAG is one whose third segment is the DAG, or a run of it. -/
theorem writeTargetsDag_iff {seg : List Char} (free : '/' ∉ seg) (dag : String) :
    writeTargetsDag ('/' :: join ("api".toList :: seg :: segs)) dag = true ↔ segs ≠ [] ∧
      (seg = "dags".toList ∧ unescape (firstSegment (join segs)) = some dag.toList ∨
        seg = "runs".toList ∧ ∃ run, unescape (firstSegment (join segs)) = some run ∧ (dag ++ "__").toList <+: run) := by
  unfold writeTargetsDag
  cases dags : cutPrefix "/api/dags/".toList ('/' :: join ("api".toList :: seg :: segs)) with
  | some rest =>
    obtain ⟨rfl, some_, rfl⟩ := (cut_dags free).mp dags
    simp [some_]
  | none =>
    have notDags (some_ : segs ≠ []) : seg ≠ "dags".toList := by
      rintro rfl
      have cut := (cut_dags free).mpr ⟨rfl, some_, rfl⟩
      rw [dags] at cut
      cases cut
    cases runs : cutPrefix "/api/runs/".toList ('/' :: join ("api".toList :: seg :: segs)) with
    | some rest =>
      obtain ⟨rfl, some_, rfl⟩ := (cut_runs free).mp runs
      simp [some_, Option.any_eq_true, List.isPrefixOf_iff_prefix]
    | none =>
      have notRuns (some_ : segs ≠ []) : seg ≠ "runs".toList := by
        rintro rfl
        have cut := (cut_runs free).mpr ⟨rfl, some_, rfl⟩
        rw [runs] at cut
        cases cut
      simp only [Bool.false_eq_true, false_iff, not_and, not_or]
      exact fun some_ => ⟨fun same => absurd same (notDags some_), fun same => absurd same (notRuns some_)⟩

end Paths

/-! ### What a scoped token reaches -/

/-- The handler changes the DAG or a run of it, or something that is no DAG's or no fixed DAG's. -/
def Changes (h : Handler) (params : List (List Char)) (dag : DagID) : Prop :=
  match h.target with
  | .nothing => False
  | .dag => params.head? = some dag.toList
  | .run => ∃ r : RunID, r.dag = dag ∧ params.head? = some r.text.toList
  | .elsewhere => True

/-- No write of a token that is scoped to `d` changes `e`. -/
def Confined (role : Role) (d e : DagID) : Prop :=
  ∀ (web : Bool) (req : Request) (h : Handler) (params : List (List Char)), User.letThrough ⟨role, d⟩ req →
    req.route web = some (h, params) → ¬ Changes h params e

/-- The id and two underscores begin the other DAG's run ids. -/
def Shadows (d e : DagID) : Prop := (d ++ "__").toList <+: (e ++ "__").toList

instance (d e : DagID) : Decidable (Shadows d e) := inferInstanceAs (Decidable (_ <+: _))

section Reach

variable {d e : DagID} {role : Role} {h : Handler} {segs params : List (List Char)}

/-- What a write of the token can change. -/
theorem reach_of_change (legal : isID e = true) (apart : d ≠ e) (scope : d ≠ "") (path : WritePath h segs params)
    (notPublic : isPublic ('/' :: join segs) = false) (may : User.mayWrite ⟨role, d⟩ ('/' :: join segs) = true) (changes : Changes h params e) :
    role ≠ .viewer ∧ (Shadows d e ∨ role = .admin ∧ d = "build") := by
  simp only [User.mayWrite, Bool.and_eq_true, Bool.or_eq_true, beq_iff_eq, scope, false_or] at may
  obtain ⟨mayRole, within⟩ := may
  have writer : role ≠ .viewer := by
    rintro rfl
    simp at mayRole
  refine ⟨writer, ?_⟩
  cases path with
  | @dag id more params target =>
    have id : id = e.toList := by
      rw [Changes, target] at changes
      exact Option.some.inj changes
    subst id
    obtain ⟨_, ⟨_, own⟩ | ⟨other, _⟩⟩ := (writeTargetsDag_iff dags_plain d).mp within
    · have plain := plain_of_isID legal
      rw [firstSegment_join plain.1, unescape_ordinary plain.2] at own
      exact absurd (String.toList_injective (Option.some.inj own)).symm apart
    · exact absurd other (by decide)
  | hook target =>
    rw [join_cons_cons, join_cons_cons] at notPublic
    exact absurd notPublic (by simp [isPublic, List.isPrefixOf])
  | @run id next more params target =>
    rw [Changes, target] at changes
    obtain ⟨r, rfl, same⟩ := changes
    obtain rfl : id = r.text.toList := Option.some.inj same
    obtain ⟨_, ⟨other, _⟩ | ⟨_, run, named, begins⟩⟩ := (writeTargetsDag_iff runs_plain d).mp within
    · exact absurd other (by decide)
    · have plain := plain_of_run legal
      rw [firstSegment_join plain.1, unescape_ordinary plain.2] at named
      obtain rfl := Option.some.inj named
      exact .inl (RunID.begins begins |>.resolve_left apart)
  | create target =>
    exact absurd rfl ((writeTargetsDag_iff dags_plain d).mp within).1
  | build same =>
    obtain ⟨_, ⟨_, own⟩ | ⟨other, _⟩⟩ := (writeTargetsDag_iff dags_plain d).mp within
    · have word : unescape (firstSegment (join ["build".toList])) = some "build".toList := by decide
      rw [word] at own
      have operator : isOperatorWrite ('/' :: join ["api".toList, "dags".toList, "build".toList]) = false := by decide
      rw [operator] at mayRole
      exact .inr ⟨by simpa using mayRole, (String.toList_injective (Option.some.inj own)).symm⟩
    · exact absurd other (by decide)
  | other target free dags runs logout =>
    obtain ⟨_, ⟨same, _⟩ | ⟨same, _⟩⟩ := (writeTargetsDag_iff free d).mp within
    · exact absurd same dags
    · exact absurd same runs

/-! ### What it does reach -/

/-- A cancellation of a run. -/
def cancelPath (r : RunID) : List Char := join ["api".toList, "runs".toList, r.text.toList, "cancel".toList]

theorem cancelPath_eq (r : RunID) : cancelPath r = "api/runs/".toList ++ r.text.toList ++ "/cancel".toList := by
  simp [cancelPath, join_cons_cons]

theorem runs_below : ∀ web, below (·.isLit "runs".toList) (below (·.isLit "api".toList) (served (routes web) (some "POST"))) =
    [([.wild "runID", .lit "hold"], .holdRun), ([.wild "runID", .lit "release"], .releaseRun), ([.wild "runID", .lit "cancel"], .cancelRun),
      ([.wild "runID", .lit "retry"], .retryRun), ([.wild "runID", .lit "tasks", .wild "taskID", .lit "retry"], .retryTask),
      ([.wild "runID", .lit "tasks", .wild "taskID", .lit "mark"], .markTask), ([.wild "runID", .lit "mark"], .markRun)] := by
  decide +kernel

theorem cancel_dispatched (web : Bool) (run : List Char) :
    dispatch (routes web) "POST" ["api".toList, "runs".toList, run, "cancel".toList] = some (.cancelRun, [run]) := by
  have found : find (served (routes web) (some "POST")) ["api".toList, "runs".toList, run, "cancel".toList] = some (.cancelRun, [run]) := by
    apply find_of_literal
    apply find_of_literal
    rw [runs_below, find_cons]
    rfl
  rw [dispatch, found]
  rfl

theorem cancel_routed (web : Bool) {r : RunID} (legal : isID r.dag = true) (ordinary : '%' ∉ cancelPath r) :
    (plainRequest "POST" (cancelPath r) ordinary).route web = some (.cancelRun, [r.text.toList]) := by
  have plain := plain_of_run legal
  have segs : segments (cancelPath r) = ["api".toList, "runs".toList, r.text.toList, "cancel".toList] := by
    refine segments_join (by simp) fun seg listed => ?_
    simp only [List.mem_cons, List.not_mem_nil, or_false] at listed
    rcases listed with rfl | rfl | rfl | rfl
    · decide
    · decide
    · exact plain.1
    · decide
  have underscore : '_' ∈ r.text.toList := by
    rw [r.toList_text, String.toList_append]
    simp
  have clean : isClean ["api".toList, "runs".toList, r.text.toList, "cancel".toList] = true := by
    have named : r.text.toList ≠ [] ∧ r.text.toList ≠ ['.'] ∧ r.text.toList ≠ ['.', '.'] := by
      refine ⟨?_, ?_, ?_⟩ <;> intro same <;> rw [same] at underscore <;> revert underscore <;> decide
    simp [isClean, named]
  have decoded : ["api".toList, "runs".toList, r.text.toList, "cancel".toList].map (fun seg => (unescape seg).getD seg) =
      ["api".toList, "runs".toList, r.text.toList, "cancel".toList] := by
    simp only [List.map_cons, List.map_nil, unescape_ordinary plain.2]
    rfl
  rw [Request.route, Request.decoded, plainRequest, segs, clean, decoded, if_neg (by simp)]
  exact cancel_dispatched web r.text.toList

theorem cancel_written {role : Role} {d : DagID} {r : RunID} (writer : role ≠ .viewer) (legal : isID r.dag = true)
    (shadows : Shadows d r.dag) : isPublic ('/' :: cancelPath r) = false ∧ User.mayWrite ⟨role, d⟩ ('/' :: cancelPath r) = true := by
  have plain := plain_of_run legal
  have driving : isOperatorWrite ('/' :: cancelPath r) = true := by
    rw [cancelPath_eq]
    simp [isOperatorWrite, List.isPrefixOf]
  have within : writeTargetsDag ('/' :: cancelPath r) d = true := by
    refine (writeTargetsDag_iff runs_plain d).mpr ⟨by simp, .inr ⟨rfl, r.text.toList, ?_, ?_⟩⟩
    · rw [firstSegment_join plain.1, unescape_ordinary plain.2]
    · rw [r.toList_text]
      exact shadows.trans (List.prefix_append _ _)
  constructor
  · rw [cancelPath_eq]
    simp [isPublic, List.isPrefixOf]
  · simp only [User.mayWrite, driving, within]
    cases role <;> simp at writer ⊢

theorem build_written : isPublic "/api/dags/build".toList = false ∧ User.mayWrite ⟨.admin, "build"⟩ "/api/dags/build".toList = true := by
  decide +kernel

theorem build_dispatched : ∀ web, dispatch (routes web) "POST" ["api".toList, "dags".toList, "build".toList] = some (.buildDAG, []) := by
  decide +kernel

theorem build_routed (web : Bool) (ordinary : '%' ∉ "api/dags/build".toList) :
    (plainRequest "POST" "api/dags/build".toList ordinary).route web = some (.buildDAG, []) := by
  have segs : segments "api/dags/build".toList = ["api".toList, "dags".toList, "build".toList] := by decide +kernel
  have clean : isClean ["api".toList, "dags".toList, "build".toList] = true := by decide +kernel
  rw [Request.route, Request.decoded, plainRequest, segs, clean, if_neg (by simp)]
  exact build_dispatched web

/-- A token whose DAG's id begins the other's run ids cancels such a run. -/
theorem not_confined_of_shadows (writer : role ≠ .viewer) (legal : isID e = true) (shadows : Shadows d e) : ¬ Confined role d e := by
  intro confined
  let r : RunID := .manual e 0
  have ordinary : '%' ∉ cancelPath r := by
    rw [cancelPath_eq]
    have plain := (plain_of_run (r := r) legal).2
    simp [plain]
  obtain ⟨notPublic, may⟩ := cancel_written (r := r) writer legal shadows
  have through : User.letThrough ⟨role, d⟩ (plainRequest "POST" (cancelPath r) ordinary) := letThrough_of_mayWrite notPublic may
  exact confined false _ _ _ through (cancel_routed (r := r) false legal ordinary) ⟨r, rfl, rfl⟩

/-- An admin's token for a DAG called `build` writes files of other DAGs. -/
theorem not_confined_build : ¬ Confined .admin "build" e := by
  intro confined
  have ordinary : '%' ∉ "api/dags/build".toList := by decide
  have through : User.letThrough ⟨.admin, "build"⟩ (plainRequest "POST" "api/dags/build".toList ordinary) :=
    letThrough_of_mayWrite build_written.1 build_written.2
  exact confined false _ _ _ through (build_routed false ordinary) trivial

end Reach

/-- A token of a DAG is confined to it, with regard to another DAG, exactly when its id and two
underscores do not begin the other's run ids and it is not an admin's token for a DAG that is
called `build`. -/
theorem confined_iff {d e : DagID} (legal : isID d = true) (other : isID e = true) (apart : d ≠ e) (role : Role) :
    Confined role d e ↔ role = .viewer ∨ (¬ Shadows d e ∧ ¬ (role = .admin ∧ d = "build")) := by
  have scope : d ≠ "" := by
    rintro rfl
    exact absurd legal (by decide)
  constructor
  · intro confined
    by_cases viewer : role = .viewer
    · exact .inl viewer
    refine .inr ⟨fun shadows => not_confined_of_shadows viewer other shadows confined, ?_⟩
    rintro ⟨rfl, rfl⟩
    exact not_confined_build confined
  · intro allowed web req h params through found changes
    have writes : h.target ≠ .nothing := by
      intro nothing
      rw [Changes, nothing] at changes
      exact changes
    obtain ⟨notPublic, may, path⟩ := through.writes found writes
    rw [Request.path, ← req.decoded_join] at notPublic may
    obtain ⟨writer, reach⟩ := reach_of_change other apart scope path notPublic may changes
    rcases allowed with viewer | ⟨noShadow, noBuild⟩
    · exact writer viewer
    · exact reach.elim noShadow noBuild

/-- A token of `etl` stays away from `billing`, and not from `etl__eu`. -/
theorem confined_etl : Confined .operator "etl" "billing" ∧ ¬ Confined .operator "etl" "etl__eu" := by
  refine ⟨(confined_iff ?_ ?_ ?_ .operator).mpr ?_, fun confined => ?_⟩
  · decide +kernel
  · decide +kernel
  · decide
  · exact .inr ⟨by decide +kernel, by decide⟩
  · have held := (confined_iff (by decide +kernel) (by decide +kernel) (by decide) .operator).mp confined
    exact absurd held (by decide +kernel)

/-- Not every token is confined: one of `etl` cancels `etl__eu__manual_0`. -/
theorem not_always_confined :
    ¬ ∀ d e : DagID, isID d = true → isID e = true → d ≠ e → ∀ role, Confined role d e := by
  intro confined
  have shadows : Shadows "etl" "etl__eu" := by decide +kernel
  exact not_confined_of_shadows (by decide) (by decide +kernel) shadows
    (confined "etl" "etl__eu" (by decide +kernel) (by decide +kernel) (by decide) .operator)

end Cronova.Api
