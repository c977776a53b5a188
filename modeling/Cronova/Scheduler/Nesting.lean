import Cronova.Ancestry
import Cronova.Process.Recording
import Cronova.Scheduler.Backlog
import Cronova.Scheduler.Exclusion
import Cronova.Scheduler.Parentage
import Cronova.Scheduler.Retention
import Mathlib.Data.List.Chain

/-! How deep sub-workflow runs nest.

A launch walks up the stored parents before it creates a child run, and retention may cut the chain at
any time. The bound holds as long as the walk can read what is stored, and as long as the id that a
run names as its parent means one run only.
-/

set_option autoImplicit false

namespace Cronova.Scheduler

open Model Store Process
open Ancestry (Links Shallow)
open Calendar (Time)

/-! ### The runs that were created -/

section History

/-- The run that a statement has created. -/
def created : Issued statements → Option DagRun
  | ⟨.createDagRunBounded run _, .ok _⟩ => some run
  | ⟨.createManualDagRunBounded run _ _, .ok _⟩ => some run
  | _ => none

def creations (log : List (Issued statements)) : List DagRun := log.filterMap created

/-- The ids that were given to runs, as often as they were. -/
def givenIDs (log : List (Issued statements)) : List RunID := (creations log).map (·.runID)

/-- The ids that runs name as their parents. -/
def parentIDs (log : List (Issued statements)) : List RunID := (creations log).filterMap (·.parentRunID)

/-- The id that a run names as its parent is given to one run only. -/
def Unshared (log : List (Issued statements)) : Prop := ∀ p ∈ parentIDs log, (givenIDs log).count p ≤ 1

variable {log later : List (Issued statements)} {last : Issued statements} {id p : RunID} {run : DagRun}

theorem created_creation {o : Op} {reply : o.Reply} (creates : created ⟨o, reply⟩ = some run) : o.creation = some run := by
  cases o with
  | createDagRunBounded | createManualDagRunBounded =>
    cases reply with
    | ok _ =>
      cases creates
      rfl
    | error _ => cases creates
  | _ => cases creates

theorem creations_append (log : List (Issued statements)) (last : Issued statements) :
    creations (log ++ [last]) = creations log ++ (created last).toList := by
  simp [creations, List.filterMap_cons]
  cases created last <;> rfl

theorem givenIDs_append (log : List (Issued statements)) (last : Issued statements) :
    givenIDs (log ++ [last]) = givenIDs log ++ ((created last).map (·.runID)).toList := by
  rw [givenIDs, creations_append, List.map_append, givenIDs]
  cases created last <;> rfl

theorem parentIDs_append (log : List (Issued statements)) (last : Issued statements) :
    parentIDs (log ++ [last]) = parentIDs log ++ ((created last).bind (·.parentRunID)).toList := by
  rw [parentIDs, creations_append, List.filterMap_append, parentIDs]
  cases h : created last with
  | none => rfl
  | some run => cases parent : run.parentRunID <;> simp [parent]

theorem creations_earlier (before : log <+: later) : creations log <+: creations later := by
  obtain ⟨more, rfl⟩ := before
  exact ⟨creations more, (List.filterMap_append ..).symm⟩

theorem given_earlier (before : log <+: later) (member : id ∈ givenIDs log) : id ∈ givenIDs later :=
  ((creations_earlier before).map _).subset member

theorem count_earlier (before : log <+: later) (id : RunID) : (givenIDs log).count id ≤ (givenIDs later).count id :=
  ((creations_earlier before).map _).sublist.count_le id

theorem parents_earlier (before : log <+: later) (member : p ∈ parentIDs log) : p ∈ parentIDs later :=
  ((creations_earlier before).filterMap _).subset member

theorem Unshared.earlier (unshared : Unshared later) (before : log <+: later) : Unshared log :=
  fun p named => (count_earlier before p).trans (unshared p (parents_earlier before named))

end History

/-! ### The stored links -/

/-- The parent that a stored run names. -/
def linkOf (db : DB) : Links RunID := fun id => (db.run? id).map (·.parentRunID)

/-- The process with what it has done so far. -/
abbrev Recorded := World × List (Issued statements)

section Links

variable {tid : Nat} {o : Op} {a : Answer} {w v : World} {reply : o.Reply} {spawned : List Request} {log : List (Issued statements)}
  {s t u : Recorded} {id p : RunID} {run : DagRun}

theorem insertRun_linkOf {db after : DB} (inserted : db.insertRun run = .ok after) (id : RunID) :
    linkOf after id = linkOf db id ∨ (run.runID = id ∧ linkOf after id = some run.parentRunID) := by
  rcases DB.insertRun_run? inserted id with same | ⟨own, _, now⟩
  · exact .inl (congrArg (Option.map _) same)
  · exact .inr ⟨own, congrArg (Option.map _) now⟩

/-- Links are never rewritten: only a creation makes one. -/
theorem World.perform_linkOf (performed : World.perform tid o a w = some (reply, v, spawned)) (id : RunID) :
    linkOf v.db id = linkOf w.db id ∨
      ∃ run, created ⟨o, reply⟩ = some run ∧ run.runID = id ∧ linkOf v.db id = some run.parentRunID := by
  have kept {row row' : DagRun} (found : w.db.run? id = some row) (now : v.db.run? id = some row')
      (same : row'.parentRunID = row.parentRunID) : linkOf v.db id = linkOf w.db id := by
    rw [linkOf, linkOf, found, now, Option.map_some, Option.map_some, same]
  cases o with
  | createDagRunBounded run global =>
    obtain ⟨_, ⟨db, written, rfl, rfl⟩ | ⟨⟨e, rfl⟩, rfl⟩⟩ := World.write_some performed
    · exact (insertRun_linkOf (DB.createDagRunBounded_ok written).2.2 id).imp_right fun made => ⟨run, rfl, made⟩
    · exact .inl rfl
  | createManualDagRunBounded run perDAG global =>
    obtain ⟨_, ⟨db, written, rfl, rfl⟩ | ⟨⟨e, rfl⟩, rfl⟩⟩ := World.write_some performed
    · exact (insertRun_linkOf (DB.createManualDagRunBounded_ok written) id).imp_right fun made => ⟨run, rfl, made⟩
    · exact .inl rfl
  | updateDagRunState run state started finished =>
    rcases World.perform_run? performed id with same | ⟨_, row, found, _, now⟩
    · exact .inl (congrArg (Option.map _) same)
    · exact .inl (kept found now rfl)
  | updateDagRunSuccess run started finished =>
    rcases World.perform_run? performed id with same | ⟨_, row, found, now⟩
    · exact .inl (congrArg (Option.map _) same)
    · exact .inl (kept found now rfl)
  | updateDagRunDefinition run yaml hash =>
    rcases World.perform_run? performed id with same | ⟨_, row, found, now⟩
    · exact .inl (congrArg (Option.map _) same)
    · exact .inl (kept found now rfl)
  | _ =>
    rcases World.perform_run? performed id with same | changed
    · exact .inl (congrArg (Option.map _) same)
    · exact changed.elim

/-- Retention takes runs away, and leaves the others as they are. -/
theorem linkOf_pruneRuns (db : DB) (cutoff : Time) (id : RunID) :
    linkOf (db.pruneRuns cutoff).2 id = linkOf db id ∨ linkOf (db.pruneRuns cutoff).2 id = none := by
  cases found : (db.pruneRuns cutoff).2.run? id with
  | none => exact .inr (congrArg (Option.map _) found)
  | some row =>
    obtain ⟨member, rfl⟩ := DB.run?_some found
    have before : db.run? row.runID = some row := DB.run?_of_mem (DB.mem_pruneRuns.mp member).1
    exact .inl (by rw [linkOf, linkOf, found, before])

/-- What holds of the stored runs at any moment. -/
structure Nested (s : Recorded) : Prop where
  given : ∀ id, linkOf s.1.db id ≠ none → id ∈ givenIDs s.2
  named : ∀ id p, linkOf s.1.db id = some (some p) → p ∈ parentIDs s.2
  born : ∀ p ∈ parentIDs s.2, p ∈ givenIDs s.2
  shallow : ∀ id link, linkOf s.1.db id = some link → Shallow (linkOf s.1.db) maxSubdagDepth link

/-- What may happen to the stored runs from one moment to another. A new run is not named as a parent yet, and
if its id was given before then it is given twice. -/
structure Grows (s t : Recorded) : Prop where
  history : s.2 <+: t.2
  links : ∀ id, linkOf t.1.db id = linkOf s.1.db id ∨ linkOf t.1.db id = none ∨
    (id ∉ parentIDs s.2 ∧ (id ∈ givenIDs s.2 → 2 ≤ (givenIDs t.2).count id))

theorem Grows.refl (s : Recorded) : Grows s s := ⟨List.prefix_rfl, fun _ => .inl rfl⟩

theorem Grows.trans (first : Grows s t) (second : Grows t u) : Grows s u where
  history := first.history.trans second.history
  links id := by
    rcases second.links id with same | gone | ⟨fresh, again⟩
    · rw [same]
      rcases first.links id with same | gone | ⟨fresh, again⟩
      · exact .inl same
      · exact .inr (.inl gone)
      · exact .inr (.inr ⟨fresh, fun given => (again given).trans (count_earlier second.history id)⟩)
    · exact .inr (.inl gone)
    · refine .inr (.inr ⟨fun named => fresh (parents_earlier first.history named), fun given => ?_⟩)
      exact again (given_earlier first.history given)

/-- A parent stays what it is, or goes. -/
theorem Grows.parent (grows : Grows s t) (named : p ∈ parentIDs s.2) :
    linkOf t.1.db p = linkOf s.1.db p ∨ linkOf t.1.db p = none := by
  rcases grows.links p with same | gone | ⟨fresh, _⟩
  · exact .inl same
  · exact .inr gone
  · exact absurd named fresh

/-- Nothing comes in above a run that has a parent. -/
theorem Grows.shallow (nested : Nested s) (grows : Grows s t) {n : Nat} {link : Option RunID}
    (named : ∀ p, link = some p → p ∈ parentIDs s.2) (shallow : Shallow (linkOf s.1.db) n link) : Shallow (linkOf t.1.db) n link :=
  shallow.stable nested.named (fun _ named => grows.parent named) named

/-- The creation of the run is covered: if the id of its parent means one run only, there is room below it. -/
def Attachable (run : DagRun) (s : Recorded) : Prop :=
  ∀ p, run.parentRunID = some p →
    p ∈ givenIDs s.2 ∧ ((givenIDs s.2).count p ≤ 1 → Shallow (linkOf s.1.db) maxSubdagDepth (some p))

/-- Only links that are there already lie above a new run. -/
theorem Nested.performs (nested : Nested (w, log)) (attachable : ∀ run, o.creation = some run → Attachable run (w, log))
    (unshared : Unshared (log ++ [⟨o, reply⟩])) (performed : World.perform tid o a w = some (reply, v, spawned)) :
    Nested (v, log ++ [⟨o, reply⟩]) ∧ Grows (w, log) (v, log ++ [⟨o, reply⟩]) := by
  have before : log <+: log ++ [⟨o, reply⟩] := List.prefix_append _ _
  cases made : created ⟨o, reply⟩ with
  | none =>
    have same : linkOf v.db = linkOf w.db := by
      funext id
      refine (World.perform_linkOf performed id).resolve_right ?_
      rintro ⟨run, creates, _⟩
      cases made.symm.trans creates
    have given : givenIDs (log ++ [⟨o, reply⟩]) = givenIDs log := by rw [givenIDs_append, made]; exact List.append_nil _
    have parents : parentIDs (log ++ [⟨o, reply⟩]) = parentIDs log := by rw [parentIDs_append, made]; exact List.append_nil _
    refine ⟨⟨?_, ?_, ?_, ?_⟩, before, fun id => .inl (congrFun same id)⟩
    · simpa only [same, given] using nested.given
    · simpa only [same, parents] using nested.named
    · simpa only [parents, given] using nested.born
    · simpa only [same] using nested.shallow
  | some run =>
    have given : givenIDs (log ++ [⟨o, reply⟩]) = givenIDs log ++ [run.runID] := by rw [givenIDs_append, made]; rfl
    have parents : parentIDs (log ++ [⟨o, reply⟩]) = parentIDs log ++ run.parentRunID.toList := by rw [parentIDs_append, made]; rfl
    have covered := attachable run (created_creation made)
    have born (p : RunID) (named : p ∈ parentIDs (log ++ [⟨o, reply⟩])) : p ∈ givenIDs log := by
      rw [parents, List.mem_append] at named
      rcases named with old | own
      · exact nested.born p old
      · exact (covered p (by simpa using own)).1
    have apart (p : RunID) (named : p ∈ parentIDs (log ++ [⟨o, reply⟩])) : p ≠ run.runID := by
      rintro rfl
      have once := unshared _ named
      have again := List.count_pos_iff.mpr (born _ named)
      rw [given, List.count_append, List.count_singleton_self] at once
      omega
    have links (id : RunID) : linkOf v.db id = linkOf w.db id ∨ (id = run.runID ∧ linkOf v.db id = some run.parentRunID) := by
      rcases World.perform_linkOf performed id with same | ⟨other, creates, own, now⟩
      · exact .inl same
      · cases made.symm.trans creates
        exact .inr ⟨own.symm, now⟩
    have kept (p : RunID) (named : p ∈ parentIDs (log ++ [⟨o, reply⟩])) : linkOf v.db p = linkOf w.db p ∨ linkOf v.db p = none :=
      (links p).imp_right fun own => absurd own.1 (apart p named)
    have above (id p : RunID) (link : linkOf w.db id = some (some p)) : p ∈ parentIDs (log ++ [⟨o, reply⟩]) :=
      parents_earlier before (nested.named id p link)
    have own (p : RunID) (parent : run.parentRunID = some p) : p ∈ parentIDs (log ++ [⟨o, reply⟩]) := by
      rw [parents, parent]
      simp
    refine ⟨⟨?_, ?_, fun p named => given_earlier before (born p named), ?_⟩, before, fun id => ?_⟩
    · intro id there
      rcases links id with same | ⟨rfl, _⟩
      · exact given_earlier before (nested.given id (same ▸ there))
      · simp [given]
    · intro id p link
      rcases links id with same | ⟨rfl, now⟩
      · exact above id p (same.symm.trans link)
      · exact own p (Option.some.inj (now.symm.trans link))
    · intro id link found
      rcases links id with same | ⟨rfl, now⟩
      · have there : linkOf w.db id = some link := same.symm.trans found
        refine (nested.shallow id link there).stable above kept fun p parent => ?_
        subst parent
        exact above id p there
      · cases now.symm.trans found
        refine Shallow.stable above kept own ?_
        cases parent : run.parentRunID with
        | none => trivial
        | some p => exact (covered p parent).2 ((count_earlier before p).trans (unshared p (own p parent)))
    · rcases links id with same | ⟨rfl, _⟩
      · exact .inl same
      · refine .inr (.inr ⟨fun named => apart _ (parents_earlier before named) rfl, fun once => ?_⟩)
        have again : 0 < (givenIDs log).count run.runID := List.count_pos_iff.mpr once
        rw [given, List.count_append, List.count_singleton_self]
        exact Nat.succ_le_succ again

/-- Retention takes only away. -/
theorem Nested.pruned (nested : Nested (w, log)) (cutoff : Time) :
    Nested (w.pruned cutoff, log) ∧ Grows (w, log) (w.pruned cutoff, log) := by
  have grows : Grows (w, log) (w.pruned cutoff, log) :=
    ⟨List.prefix_rfl, fun id => (linkOf_pruneRuns w.db cutoff id).imp_right .inl⟩
  have stood {id : RunID} {link : Option RunID} (found : linkOf (w.pruned cutoff).db id = some link) : linkOf w.db id = some link := by
    rcases linkOf_pruneRuns w.db cutoff id with same | gone
    · exact same.symm.trans found
    · cases gone.symm.trans found
  refine ⟨⟨?_, fun id p link => nested.named id p (stood link), nested.born, fun id link found => ?_⟩, grows⟩
  · intro id there
    obtain ⟨link, found⟩ := Option.ne_none_iff_exists'.mp there
    exact nested.given id (by rw [stood found]; simp)
  · refine grows.shallow nested (fun p parent => ?_) (nested.shallow id link (stood found))
    subst parent
    exact nested.named id p (stood found)

/-- What a read of a run shows. -/
theorem World.perform_getDagRun {reply : Except StoreError DagRun} (performed : World.perform tid (.getDagRun p) a w = some (reply, v, spawned)) :
    v.db = w.db ∧ (∀ row, reply = .ok row → w.db.run? p = some row) ∧
      ∀ e, reply = .error e → a.served = true → w.db.run? p = none := by
  cases performed
  refine ⟨rfl, ?_⟩
  unfold DB.getDagRun
  cases w.db.run? p with
  | none => cases a.served <;> simp
  | some row => cases a.served <;> simp

end Links

/-! ### What the goroutines rely on -/

/-- A read fails only where it does not count: the run is not stored, or no run names it as its parent. -/
def ParentRead (a : Answer) (s : Recorded) (run : RunID) : Prop :=
  a.served = true ∨ run ∉ parentIDs s.2 ∨ s.1.db.run? run = none

def nesting (env : Env) : Protocol (scheduler env).recorded where
  allowed tid o a s := (∀ run, o = .getDagRun run → ParentRead a s run) ∧
    ∀ reply v spawned, World.perform tid o a s.1 = some (reply, v, spawned) → Unshared (s.2 ++ [⟨o, reply⟩])
  requests _ := True
  restarts _ _ := True
  inv := Nested
  rely _ s t := Nested s → Nested t ∧ Grows s t
  may _ o s := ∀ run, o.creation = some run → Attachable run s
  post _ _ _ _ := True

abbrev nestingOf (env : Env) (tid : Nat) : Contract statements Recorded := (nesting env).contract tid

section Threads

variable {env : Env} {tid : Nat} {s t : Recorded} {run : DagRun} {keep : Recorded → Prop}

theorem nesting_step {o : Op} {reply : o.Reply} (nested : Nested s) (attachable : ∀ run, o.creation = some run → Attachable run s)
    (stepped : (nestingOf env tid).step o s reply t) : Nested t ∧ Grows s t := by
  obtain ⟨a, spawned, ⟨_, unshared⟩, performed⟩ := stepped
  obtain ⟨performed, log⟩ := System.recorded_some.mp performed
  obtain ⟨v, later⟩ := t
  cases log
  exact nested.performs attachable (unshared _ _ _ performed) performed

theorem Op.Plain.attachable {o : Op} (plain : o.Plain) (s : Recorded) : ∀ run, o.creation = some run → Attachable run s := by
  intro run creates
  cases plain.creation.symm.trans creates

/-- What the growth of the store leaves true may be assumed while covered statements are issued. -/
theorem nesting_frame {may : Op → Prop} (stable : ∀ s t, Nested s → Grows s t → keep s → keep t)
    (permits : ∀ o s, may o → Nested s → keep s → ∀ run, o.creation = some run → Attachable run s) :
    Prog.Frame (nestingOf env tid) may fun s => Nested s ∧ keep s where
  rely s t relied held := by
    obtain ⟨nested, grows⟩ := relied held.1
    exact ⟨nested, stable s t held.1 grows held.2⟩
  permit o s permitted _ held := permits o s permitted held.1 held.2
  step o s reply t permitted _ stepped held := by
    obtain ⟨nested, grows⟩ := nesting_step held.1 (permits o s permitted held.1 held.2) stepped
    exact ⟨nested, stable s t held.1 grows held.2⟩

theorem parentless_frame (stable : ∀ s t, Nested s → Grows s t → keep s → keep t) :
    Prog.Frame (nestingOf env tid) Op.Parentless fun s => Nested s ∧ keep s :=
  nesting_frame stable fun o s parentless _ _ run creates p parent => by cases (parentless run creates).symm.trans parent

theorem plain_frame (stable : ∀ s t, Nested s → Grows s t → keep s → keep t) :
    Prog.Frame (nestingOf env tid) Op.Plain fun s => Nested s ∧ keep s :=
  nesting_frame stable fun _ s plain _ _ => plain.attachable s

/-! ### The walk -/

theorem subdagDepthLoop_climbs (rounds depth : Nat) (cur : DagRun) (nested : Nested s)
    (named : ∀ p, cur.parentRunID = some p → p ∈ parentIDs s.2) :
    (subdagDepthLoop rounds depth cur).Safe (nestingOf env tid)
      (Prog.returns fun d t => ∃ n, d = depth + n ∧ (n < rounds → Shallow (linkOf t.1.db) n cur.parentRunID)) s := by
  induction rounds generalizing depth cur s with
  | zero => exact ⟨0, rfl, fun none => absurd none (Nat.not_lt_zero 0)⟩
  | succ rounds ih =>
    unfold subdagDepthLoop
    cases parent : cur.parentRunID with
    | none => exact ⟨0, rfl, fun _ => trivial⟩
    | some p =>
      intro s' relied inv
      have covered := Op.Plain.attachable (o := .getDagRun p) rfl s'
      refine ⟨covered, fun reply t stepped kept => ?_⟩
      obtain ⟨_, grows⟩ := relied nested
      obtain ⟨_, grown⟩ := nesting_step inv covered stepped
      have known : p ∈ parentIDs s'.2 := parents_earlier grows.history (named p parent)
      obtain ⟨a, spawned, ⟨reads, _⟩, performed⟩ := stepped
      obtain ⟨performed, _⟩ := System.recorded_some.mp performed
      obtain ⟨same, finds, misses⟩ := World.perform_getDagRun performed
      have known' : p ∈ parentIDs t.2 := parents_earlier grown.history known
      cases reply with
      | error e =>
        -- a read that is not refused by the database finds that the run is gone
        refine ⟨0, rfl, fun _ => ?_⟩
        have gone : s'.1.db.run? p = none := by
          rcases reads p rfl with served | unnamed | gone
          · exact misses e rfl served
          · exact absurd known unnamed
          · exact gone
        show linkOf t.1.db p = none
        rw [linkOf, same, gone, Option.map_none]
      | ok row =>
        have found : s'.1.db.run? p = some row := finds row rfl
        have link : linkOf t.1.db p = some row.parentRunID := by rw [linkOf, same, found, Option.map_some]
        have above (q : RunID) (names : row.parentRunID = some q) : q ∈ parentIDs t.2 := kept.named p q (by rw [link, names])
        -- beside the walk, the link that was just followed stays or goes
        have stays : Prog.Frame (nestingOf env tid) Op.Plain fun u => Nested u ∧ (p ∈ parentIDs u.2 ∧
            ∀ link, linkOf u.1.db p = some link → link = row.parentRunID) := by
          refine plain_frame fun u v _ grows held => ⟨parents_earlier grows.history held.1, fun link now => ?_⟩
          rcases grows.parent held.1 with kept | gone
          · exact held.2 link (kept.symm.trans now)
          · cases gone.symm.trans now
        have walks := ih (depth + 1) row kept above
        have followed := (subdagDepthLoop_plain rounds (depth + 1) row).within stays ⟨kept, known', fun other now => by
          rw [link] at now
          exact (Option.some.inj now).symm⟩
        refine (walks.and followed).mono fun result u ended => ?_
        cases result with
        | error e => exact ended.1
        | ok d =>
          obtain ⟨⟨n, found, shallow⟩, _, _, _, parents⟩ := ended
          refine ⟨n + 1, by omega, fun few up now => ?_⟩
          rw [parents up now]
          exact shallow (by omega)

/-! ### The launches of a tick -/

/-- What is known of the copy of a run that a tick has listed: the stored run has its parent, unless the id was given
once more. -/
structure Remembered (run : DagRun) (s : Recorded) : Prop where
  given : run.runID ∈ givenIDs s.2
  named : ∀ p, run.parentRunID = some p → p ∈ parentIDs s.2
  link : ∀ link, linkOf s.1.db run.runID = some link → link = run.parentRunID ∨ 2 ≤ (givenIDs s.2).count run.runID

theorem Remembered.grows (remembered : Remembered run s) (grows : Grows s t) : Remembered run t where
  given := given_earlier grows.history remembered.given
  named p parent := parents_earlier grows.history (remembered.named p parent)
  link link now := by
    rcases grows.links run.runID with same | gone | ⟨_, again⟩
    · exact (remembered.link link (same.symm.trans now)).imp_right fun twice => twice.trans (count_earlier grows.history _)
    · cases gone.symm.trans now
    · exact .inr (again remembered.given)

theorem Remembered.of_stored (nested : Nested s) (stored : run ∈ s.1.db.runs) : Remembered run s := by
  have there : linkOf s.1.db run.runID = some run.parentRunID := by rw [linkOf, DB.run?_of_mem stored, Option.map_some]
  refine ⟨nested.given _ (by rw [there]; simp), fun p parent => nested.named run.runID p (by rw [there, parent]), fun link now => ?_⟩
  exact .inl (Option.some.inj (now.symm.trans there))

theorem Remembered.same {after : DagRun} (remembered : Remembered run s) (link : SameLink run after) : Remembered after s := by
  obtain ⟨given, named, parent⟩ := remembered
  rw [← link.runID] at given parent
  rw [← link.parentRunID] at named parent
  exact ⟨given, named, parent⟩

/-- The copies that a tick goes by. -/
def Recalls (runs : List DagRun) (s : Recorded) : Prop := ∀ r ∈ runs, Remembered r s

theorem Recalls.grows {runs : List DagRun} (s t : Recorded) (_ : Nested s) (grows : Grows s t) (recalls : Recalls runs s) :
    Recalls runs t :=
  fun r member => (recalls r member).grows grows

/-- There is room for a child below the run. -/
def Headroom (run : DagRun) (s : Recorded) : Prop :=
  Remembered run s ∧ Shallow (linkOf s.1.db) (maxSubdagDepth - 1) run.parentRunID

theorem Headroom.grows (nested : Nested s) (grows : Grows s t) (headroom : Headroom run s) : Headroom run t :=
  ⟨headroom.1.grows grows, grows.shallow nested headroom.1.named headroom.2⟩

theorem Headroom.attachable {child : DagRun} (headroom : Headroom run s) (parent : child.parentRunID = some run.runID) : Attachable child s := by
  intro p names
  cases parent.symm.trans names
  refine ⟨headroom.1.given, fun once up there => ?_⟩
  rcases headroom.1.link up there with same | twice
  · rw [same]
    exact headroom.2
  · omega

/-- A plain statement, or the creation of the child. -/
def Op.Launches (child : DagRun) (global : Int) (o : Op) : Prop := o.Plain ∨ o = .createDagRunBounded child global

variable {runs : List DagRun}

theorem launchSubdag_keeps {after : DagRun} (member : run ∈ runs) (link : SameLink run after) (task : Task) (ti : TaskInstance) (now : Time) :
    Keeps (nestingOf env tid) (fun s => Nested s ∧ Recalls runs s) (launchSubdag env after task ti now) := by
  intro s held
  have remembered : Remembered after s := (held.2 run member).same link
  have walks : (subdagDepth after).Safe (nestingOf env tid) _ s :=
    subdagDepthLoop_climbs (maxSubdagDepth + 1) 0 after held.1 remembered.named
  have stays : Prog.Frame (nestingOf env tid) Op.Plain fun s => Nested s ∧ (Recalls runs s ∧ Remembered after s) :=
    plain_frame fun s t nested grows held => ⟨Recalls.grows s t nested grows held.1, held.2.grows grows⟩
  have walked := (subdagDepthLoop_plain (maxSubdagDepth + 1) 0 after).within stays ⟨held.1, held.2, remembered⟩
  rw [launchSubdag_eq]
  refine Prog.Safe.bind _ (walks.and walked) (fun depth t ended => ?_) fun e t ended => ended.1.elim
  obtain ⟨⟨n, found, shallow⟩, _, nested, recalls, remembered⟩ := ended
  by_cases deep : maxSubdagDepth ≤ depth
  · exact Keeps.promise (plain_frame Recalls.grows) (launchAt_deep env deep after task ti now) t ⟨nested, recalls⟩
  · have headroom : Headroom after t := ⟨remembered, (shallow (by omega)).mono (by omega)⟩
    have frame : Prog.Frame (nestingOf env tid) (Op.Launches (childRun after task now) env.maxQueuedRunsGlobal)
        fun s => Nested s ∧ (Recalls runs s ∧ Headroom after s) := by
      refine nesting_frame (fun s t nested grows held => ⟨Recalls.grows s t nested grows held.1, held.2.grows nested grows⟩) ?_
      rintro o s (plain | rfl) _ held
      · exact plain.attachable s
      · intro child creates
        cases creates
        exact held.2.attachable rfl
    have issues : Prog.Issues (Op.Launches (childRun after task now) env.maxQueuedRunsGlobal) (launchAt env after task ti now depth) :=
      launchAt_issues env (fun _ plain => .inl plain) after task ti now (.inr rfl) depth
    exact (issues.within frame ⟨nested, recalls, headroom⟩).mono fun _ _ ended => ⟨ended.2.1, ended.2.2.1⟩

theorem processRun_keeps (member : run ∈ runs) :
    Keeps (nestingOf env tid) (fun s => Nested s ∧ Recalls runs s) (processRun env run) := by
  have launches : Launches env (nestingOf env tid) (fun s => Nested s ∧ Recalls runs s) run :=
    fun after task ti now link => launchSubdag_keeps member link task ti now
  have advances := (advanceRun_completes (plain_frame Recalls.grows) launches).keeps
  exact Keeps.locked (parentless_frame Recalls.grows) (Op.parentless_of_none rfl) (Op.parentless_of_none rfl) advances

/-! ### The tick -/

/-- A listing shows stored runs. -/
theorem listing_recalls {B : Type} {o : Op} {k : o.Reply → Act B} {post : Except Failure B → Recorded → Prop} (lists : o.creation = none)
    (rows : o.Reply → List DagRun) (stored : ∀ a w reply v spawned, World.perform tid o a w = some (reply, v, spawned) →
      ∀ r ∈ rows reply, r ∈ v.db.runs) (held : Nested s ∧ Recalls runs s)
    (onward : ∀ reply t, Nested t ∧ Recalls (runs ++ rows reply) t → (k reply).Safe (nestingOf env tid) post t) :
    (Prog.call o k).Safe (nestingOf env tid) post s := by
  intro s' relied inv
  have covered : ∀ run, o.creation = some run → Attachable run s' := fun run creates => by cases lists.symm.trans creates
  refine ⟨covered, fun reply t stepped kept => onward reply t ⟨kept, fun r member => ?_⟩⟩
  obtain ⟨_, grows⟩ := relied held.1
  obtain ⟨_, grown⟩ := nesting_step inv covered stepped
  obtain ⟨a, spawned, _, performed⟩ := stepped
  obtain ⟨performed, _⟩ := System.recorded_some.mp performed
  rcases List.mem_append.mp member with old | new
  · exact ((held.2 r old).grows grows).grows grown
  · exact .of_stored kept (stored _ _ _ _ _ performed r new)

theorem promoteRun_keeps (p : Promotion) (member : run ∈ runs) :
    Keeps (nestingOf env tid) (fun s => Nested s ∧ Recalls runs s) (promoteRun env p run) := by
  have frame : Prog.Frame (nestingOf env tid) Op.Plain fun s => Nested s ∧ Recalls runs s := plain_frame Recalls.grows
  unfold promoteRun
  split
  · exact Keeps.pure _
  · refine Keeps.bind (.promise frame (plain_perform rfl)) fun cached => ?_
    have turns (full discards : Prop) [Decidable full] [Decidable discards] : Keeps (nestingOf env tid) (fun s => Nested s ∧ Recalls runs s)
        (if full then do
            if discards then discardRun run
            pure p
          else do
            let collected ← processRun env run
            pure ⟨Function.update p.running run.dagID (p.running run.dagID + 1), p.globalRunning + 1, p.ready ++ collected⟩ : Act Promotion) := by
      split
      · split
        · exact Keeps.bind (.promise frame (discardRun_plain run)) fun _ => Keeps.pure _
        · exact Keeps.pure _
      · exact Keeps.bind (processRun_keeps member) fun _ => Keeps.pure _
    exact turns _ _

/-- What `processActiveRuns` does with its listings. -/
def processListed (env : Env) (queued running : List DagRun) : Act Unit := do
  let ready ← Prog.fold (fun ready run => do
    let collected ← processRun env run
    pure (ready ++ collected)) running []
  let priority ← priorityDAGs queued
  let promoted ← Prog.fold (promoteRun env) (reorderPriorityQueues priority queued)
    ⟨fun dag => running.countP (·.dagID == dag), running.length, ready⟩
  admitReady env promoted.ready

theorem processListed_keeps (queued running : List DagRun) :
    Keeps (nestingOf env tid) (fun s => Nested s ∧ Recalls (queued ++ running) s) (processListed env queued running) := by
  have frame : Prog.Frame (nestingOf env tid) Op.Parentless fun s => Nested s ∧ Recalls (queued ++ running) s :=
    parentless_frame Recalls.grows
  refine Keeps.bind (Keeps.fold (fun ready run member => ?_) []) fun ready => ?_
  · exact Keeps.bind (processRun_keeps (List.mem_append_right _ member)) fun _ => Keeps.pure _
  · refine Keeps.bind (.promise frame (priorityDAGs_plain queued).parentless) fun priority => ?_
    refine Keeps.bind (Keeps.fold (fun p run member => ?_) _) fun promoted => ?_
    · exact promoteRun_keeps p (List.mem_append_left _ (mem_reordered.mp member))
    · have admits : Completes (nestingOf env tid) _ (admitReady env promoted.ready) :=
        admitReady_completes frame (fun _ => Op.Plain.parentless) (Op.parentless_of_none rfl) (Op.parentless_of_none rfl) _
      exact admits.keeps

/-- The rows of a listing, if it was served. -/
def listedRows (reply : Except StoreError (List DagRun)) : List DagRun := reply.toOption.getD []

theorem promotes_keeps (queued : List DagRun) (t : Recorded) (held : Nested t ∧ Recalls queued t) : Prog.Safe (nestingOf env tid) (do
    let running ← match ← (listDagRunsByState .running).attempt with
      | .ok running => pure running
      | .error _ => pure []
    processListed env queued running : Act Unit) (fun _ u => Nested u) t := by
  refine listing_recalls (o := .listDagRunsByState .running) rfl listedRows ?_ held fun listed u held => ?_
  · intro a w reply v spawned performed r member
    obtain ⟨rfl, _, rfl | rfl⟩ := World.read_some performed
    · exact (DB.mem_listDagRunsByState.mp member).1
    · cases member
  · have goes := @processListed_keeps env tid queued (listedRows listed) u held
    cases listed with
    | ok running => exact goes.mono fun _ _ ended => ended.1
    | error e => exact goes.mono fun _ _ ended => ended.1

theorem processActiveRuns_keeps : Keeps (nestingOf env tid) Nested (processActiveRuns env) := by
  intro s nested
  have start : Nested s ∧ Recalls [] s := ⟨nested, by simp [Recalls]⟩
  refine listing_recalls (o := .listDagRunsByStateLimited .queued (env.maxActiveRunsGlobal + 500)) rfl listedRows ?_ start
    fun listed t held => ?_
  · intro a w reply v spawned performed r member
    obtain ⟨rfl, _, rfl | rfl⟩ := World.read_some performed
    · exact (DB.mem_listDagRunsByStateLimited member).1
    · cases member
  · cases listed with
    | ok queued => exact promotes_keeps queued t held
    | error e => exact promotes_keeps [] t held

theorem nested_frame : Prog.Frame (nestingOf env tid) Op.Parentless Nested := by
  have frame : Prog.Frame (nestingOf env tid) Op.Parentless fun s => Nested s ∧ True := parentless_frame fun _ _ _ _ _ => trivial
  simpa only [and_true] using frame

theorem tickOnce_keeps : Keeps (nestingOf env tid) Nested (tickOnce env) := by
  have creates {A : Type} {p : Act A} (parentless : Parentless p) : Keeps (nestingOf env tid) Nested p := .promise nested_frame parentless
  have delivers := creates (processPendingDependencyEvents_delivers env).parentless
  refine Keeps.bind (creates (plain_perform rfl).parentless) fun now => Keeps.bind delivers fun _ => ?_
  refine Keeps.bind (creates (processPendingExternalEvents_delivers env).parentless) fun _ => ?_
  refine Keeps.bind (creates (createDueRuns_delivers env now).parentless) fun _ => ?_
  exact Keeps.bind processActiveRuns_keeps fun _ => delivers

theorem serve_keeps (request : Request) : Keeps (nestingOf env tid) Nested (serve env request) := by
  by_cases tick : request = .tick
  · subst tick
    exact tickOnce_keeps
  · exact .promise nested_frame (serve_parentless env tick)

theorem nesting_sound (env : Env) : (nesting env).Sound where
  refl _ s nested := ⟨nested, .refl s⟩
  trans _ _ _ _ first second nested := by
    obtain ⟨mid, grows⟩ := first nested
    obtain ⟨last, later⟩ := second mid
    exact ⟨last, grows.trans later⟩
  stable _ _ _ _ _ _ _ := trivial
  keeps _ _ a _ _ _ spawned nested attachable allowed performed := (nesting_step nested attachable ⟨a, spawned, allowed, performed⟩).1
  relies _ _ a _ _ _ spawned nested attachable allowed performed _ _ _ := nesting_step nested attachable ⟨a, spawned, allowed, performed⟩
  spawns _ _ a _ _ _ spawned nested attachable allowed performed request _ _ _ :=
    (serve_keeps request _ (nesting_step nested attachable ⟨a, spawned, allowed, performed⟩).1).mono fun _ _ _ => trivial
  starts request s _ nested _ := (serve_keeps request s nested).mono fun _ _ _ => trivial
  crashes a s nested _ := by
    have kept : Nested (s.1.crash a, s.2) := ⟨nested.given, nested.named, nested.born, nested.shallow⟩
    exact ⟨kept, (serve_keeps .recover _ kept).mono fun _ _ _ => trivial⟩

end Threads

/-! ### The bound -/

/-- In a chain of active runs, each the parent of the next, there are no more than `maxSubdagDepth` below the first. -/
def NestingBounded (db : DB) : Prop := ∀ chain : List DagRun, (∀ r ∈ chain, r ∈ db.runs ∧ r.state.isActive = true) →
  chain.IsChain (fun parent child => child.parentRunID = some parent.runID) → chain.length ≤ maxSubdagDepth + 1

theorem Nested.bounded {s : Recorded} (nested : Nested s) : NestingBounded s.1.db := by
  intro chain stored linked
  have there (r : DagRun) (member : r ∈ chain) : linkOf s.1.db r.runID = some r.parentRunID := by
    rw [linkOf, DB.run?_of_mem (stored r member).1, Option.map_some]
  have present (id : RunID) (member : id ∈ (chain.map (·.runID)).reverse) : ∃ link, linkOf s.1.db id = some link := by
    obtain ⟨r, among, rfl⟩ := List.mem_map.mp (List.mem_reverse.mp member)
    exact ⟨_, there r among⟩
  have upwards : (chain.map (·.runID)).reverse.IsChain fun child parent => linkOf s.1.db child = some (some parent) := by
    rw [List.isChain_reverse, List.isChain_map]
    refine (List.IsChain.iff_mem.mp linked).imp ?_
    rintro parent child ⟨_, member, names⟩
    rw [there child member, names]
  have length : (chain.map (·.runID)).reverse.length = chain.length := by simp
  rw [← length]
  cases ids : (chain.map (·.runID)).reverse with
  | nil => exact Nat.zero_le _
  | cons last up =>
    rw [ids] at present upwards
    obtain ⟨link, found⟩ := present last (.head _)
    refine Nat.succ_le_succ ((nested.shallow last link found).bounds found (fun id member => ?_) upwards)
    obtain ⟨link, found⟩ := present id (.tail _ member)
    simp [found]

/-- Retention, whenever it runs. -/
def Pruned (w v : World) : Prop := ∃ cutoff, v = w.pruned cutoff

/-- The parents that a walk asks for are read, and the id that a run names as its parent is given to one run only. -/
def KeepsLineage (env : Env) (p : State) (move : Step) : Prop :=
  (∀ tid a run, move = .step tid a → p.next tid = some (.getDagRun run) → ParentRead a (p.state, p.issued) run) ∧
    Unshared ((scheduler env).step p move).issued

theorem KeepsLineage.admits {env : Env} {p : State} {move : Step} (keeps : KeepsLineage env p move) :
    (nesting env).Admits p.recorded move := by
  cases move with
  | start request => trivial
  | restart a => trivial
  | step tid a =>
    intro o next
    refine ⟨fun run reads => keeps.1 tid a run rfl (by rw [← reads]; exact next), fun reply v spawned performed => ?_⟩
    have unshared := keeps.2
    rwa [System.issued_step (M := scheduler env) (p := p) next performed] at unshared

theorem nested_empty {w : World} (fresh : w.db.runs.rows = []) : Nested (w, []) := by
  have none (id : RunID) : linkOf w.db id = none := by simp [linkOf, DB.run?, fresh]
  refine ⟨fun id there => absurd (none id) there, fun id p link => ?_, by rintro _ ⟨⟩, fun id link found => ?_⟩
  · cases (none id).symm.trans link
  · cases (none id).symm.trans found

/-- Whatever the definitions refer to, however they are edited, and wherever retention cuts a chain: active runs do not nest
deeper than the bound. -/
theorem nesting_bounded (env : Env) {w : World} (fresh : w.db.runs.rows = []) {q : State}
    (visits : (scheduler env).Visits (KeepsLineage env) Pruned (idle w) q) : NestingBounded q.state.db := by
  have start : (nesting env).Good (idle w).recorded := ⟨nested_empty fresh, fun tid thread found => by simp [Pool.recorded, idle] at found⟩
  refine ((nesting_sound env).visits visits (fun _ _ keeps => keeps.admits) ?_ start).inv.bounded
  rintro s _ log ⟨cutoff, rfl⟩ nested
  obtain ⟨kept, grows⟩ := nested.pruned cutoff
  exact ⟨kept, fun _ _ => ⟨kept, grows⟩⟩

section Loop

instance (log : List (Issued statements)) : Decidable (Unshared log) :=
  inferInstanceAs (Decidable (∀ p ∈ parentIDs log, (givenIDs log).count p ≤ 1))

/-- Moves whose statements are all served. -/
theorem follows_served {env : Env} {p : State} {moves : List Step} (served : ∀ tid a, Move.step tid a ∈ moves → a.served = true)
    (unshared : Unshared ((scheduler env).run p moves).issued) : (scheduler env).Follows (KeepsLineage env) p moves := by
  induction moves generalizing p with
  | nil => trivial
  | cons move moves ih =>
    refine ⟨⟨fun tid a run same _ => .inl ?_, unshared.earlier (System.run_issued _ moves)⟩, ?_⟩
    · subst same
      exact served tid a (.head _)
    · exact ih (fun tid a member => served tid a (.tail _ member)) unshared

/-- A workflow that refers to itself. -/
def nestDAG : DAG where
  dagID := "loop"
  definitionYAML := "loop"
  maxActiveRuns := 10
  tasks := [{ id := "next", type := .subdag, subdag := "loop" }]

def nestEnv : Env where
  parse yaml := if yaml = "loop" then some nestDAG else none
  hash yaml := yaml
  shift _ _ _ := none
  parseSchedule _ _ := none
  decodePayload _ := none

def nestWorld : World where
  db := { DB.empty with dags := [{ dagID := "loop" }] }
  cache := ⟨[⟨nestDAG, none⟩], by decide⟩

/-- A tick at its own time; each starts the queued run of the loop, which creates the next one. -/
def nestTick (tid count : Nat) : List Step := .start .tick :: List.replicate count (.step tid { now := tid })

/-- The loop is triggered, and five ticks follow. -/
def nestSteps : List Step :=
  .start (.triggerManual "loop" [] 0) :: List.replicate 3 (.step 0 {}) ++ (List.range 5).flatMap fun k => nestTick (k + 1) 62

/-- The sixth tick, in which the first read of the walk fails. -/
def blindTick : List Step := nestTick 6 59 ++ .step 6 { served := false } :: List.replicate 10 (.step 6 { now := 6 })

/-- The chain that the store holds. -/
def nestChain (moves : List Step) : List DagRun := ((scheduler nestEnv).run (idle nestWorld) moves).state.db.runs.rows

/-- The loop unrolls up to the bound. -/
theorem loop_nests_to_bound : NestingBounded ((scheduler nestEnv).run (idle nestWorld) nestSteps).state.db ∧
    (nestChain nestSteps).length = maxSubdagDepth + 1 := by
  have served : ∀ tid a, Move.step tid a ∈ nestSteps → a.served = true := by
    intro tid a member
    simp only [nestSteps, nestTick, List.mem_append, List.mem_cons, List.mem_replicate, List.mem_flatMap, reduceCtorEq, false_or,
      Move.step.injEq] at member
    rcases member with ⟨_, _, rfl⟩ | ⟨_, _, _, _, rfl⟩
    · rfl
    · rfl
  have facts : Unshared ((scheduler nestEnv).run (idle nestWorld) nestSteps).issued ∧ (nestChain nestSteps).length = maxSubdagDepth + 1 := by
    decide +kernel
  have follows : (scheduler nestEnv).Follows (KeepsLineage nestEnv) (idle nestWorld) nestSteps := follows_served served facts.1
  exact ⟨nesting_bounded nestEnv rfl (System.Reaches.visits (follows.reaches (.refl _))), facts.2⟩

/-- One read that fails is taken for the end of the chain, and the loop goes on below the bound. -/
theorem blind_walk_nests_deeper : ¬ ∀ (env : Env) (w : World), w.db.runs.rows = [] →
    ∀ q, (scheduler env).Visits (fun _ _ => True) Pruned (idle w) q → NestingBounded q.state.db := by
  intro claim
  have reached : (scheduler nestEnv).Visits (fun _ _ => True) Pruned (idle nestWorld)
      ((scheduler nestEnv).run (idle nestWorld) (nestSteps ++ blindTick)) :=
    System.Reaches.visits ((System.follows_any _ _).reaches (.refl _))
  have facts : (∀ r ∈ nestChain (nestSteps ++ blindTick), r.state.isActive = true) ∧
      ((nestChain (nestSteps ++ blindTick)).IsChain fun parent child => child.parentRunID = some parent.runID) ∧
      (nestChain (nestSteps ++ blindTick)).length = maxSubdagDepth + 2 := by
    decide +kernel
  obtain ⟨active, linked, length⟩ := facts
  have bounded := claim nestEnv nestWorld rfl _ reached (nestChain (nestSteps ++ blindTick)) (fun r member => ⟨member, active r member⟩) linked
  omega

end Loop

end Cronova.Scheduler
