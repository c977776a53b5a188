import Cronova.Scheduler.Finishing
import Cronova.Scheduler.Promotion

/-! The runs that `serial_discard` drops. The gate counts the runs that the tick has listed as
running, whatever has become of them since. -/

set_option autoImplicit false

namespace Cronova.Scheduler

open Model Store Process
open Calendar (Time)

/-! ### The state of a run in terms of the statements -/

section Left

variable {tid : Nat} {o : Op} {a : Answer} {w v : World} {reply : o.Reply} {spawned : List Request} {id : RunID}

/-- The state in which a statement, answered in this way, leaves a run that it writes. -/
def Op.leaves (id : RunID) : (o : Op) → o.Reply → Option RunState
  | .createDagRunBounded run _, .ok _ | .createManualDagRunBounded run _ _, .ok _ => if run.runID = id then some run.state else none
  | .updateDagRunState run state _ _, .ok _ => if run = id then some state else none
  | .updateDagRunSuccess run _ _, .ok _ => if run = id then some .success else none
  | _, _ => none

end Left

/-! ### The runs that are dropped -/

section Dropping

variable {env : Env} {cached : DagID → Option CachedDAG} {queued : List DagRun} {run : DagRun} {log : List (Issued statements)}

/-- The section that a statement enters, leaves or stays in. -/
def Op.sectionAfter (held : Option Section) : Op → Option Section
  | .lock what => some what
  | .unlock => none
  | _ => held

/-- The section that a log ends in. -/
def sectionOf (log : List (Issued statements)) : Option Section := log.foldl (fun held issued => Op.sectionAfter held issued.1) none

theorem sectionOf_append (log : List (Issued statements)) (issued : Issued statements) :
    sectionOf (log ++ [issued]) = Op.sectionAfter (sectionOf log) issued.1 := by
  rw [sectionOf, List.foldl_append]
  rfl

/-- A statement that stays where it is. -/
def Op.inside (o : Op) : Prop := o.hands = [] ∧ ∀ held, o.sectionAfter held = held

theorem Op.Plain.inside {o : Op} (plain : o.Plain) : o.inside := by
  refine ⟨plain.hands, fun held => ?_⟩
  cases o with
  | lock | unlock => cases plain
  | _ => rfl

/-- The runs that were handed over by this point, and the section. -/
def At (held : Option Section) (runs : List DagRun) (log : List (Issued statements)) : Prop :=
  sectionOf log = held ∧ handedRuns log = runs

theorem At.stays {held : Option Section} {runs : List DagRun} {o : Op} {reply : o.Reply} (kept : At held runs log)
    (inside : o.inside) : At held runs (log ++ [⟨o, reply⟩]) := by
  refine ⟨?_, ?_⟩
  · rw [sectionOf_append, inside.2]
    exact kept.1
  · rw [handedRuns_issue, inside.1, List.append_nil]
    exact kept.2

/-- The counts of the gate are those of the runs that were handed over. -/
def Counted (p : Promotion) (log : List (Issued statements)) : Prop :=
  sectionOf log = none ∧ ∀ dag, p.running dag = countOf dag (handedRuns log)

end Dropping

/-! ### The runs that the gate counts -/

section Discard

variable {env : Env} {w v : World} {log : List (Issued statements)} {q : Act Unit} {id : RunID}

theorem view_log (log : List (Issued statements)) :
    Prog.view (I := statements) (fun log o reply => log ++ [⟨o, reply⟩]) [] log = log := by
  induction log using List.reverseRecOn with
  | nil => rfl
  | append_singleton log issued ih => rw [Prog.view_append, ih]

end Discard

end Cronova.Scheduler
