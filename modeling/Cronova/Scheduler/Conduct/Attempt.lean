import Cronova.Scheduler.Footprint

/-! The programs of an attempt and of `Recover` keep to their footprint. -/

set_option autoImplicit false

namespace Cronova.Scheduler

open Model Store Process
open Calendar (Time)

variable {env : Env} {v₀ v u : View}

theorem View.Base.onward {c : TaskInstance} (base : v.Base c) (onward : Onward v u) : u.Base c := by
  unfold View.Base at base ⊢
  rw [onward.origin]
  cases origin : v.origin with
  | goroutine task epoch => simpa [origin] using base
  | recover =>
    rw [origin] at base
    exact ⟨onward.hand c base.1, by rw [onward.returned, onward.resumed]; exact base.2⟩
  | _ => exact onward.hand c (by simpa [origin] using base)

theorem View.Base.of_tick {c : TaskInstance} (held : c ∈ v.hand) (origin : v.origin = .tick) : v.Base c := by
  unfold View.Base
  rw [origin]
  exact held

theorem View.Base.held {c : TaskInstance} (base : v.Base c) (shared : ∀ task epoch, v.origin ≠ .goroutine task epoch) :
    c ∈ v.hand := by
  unfold View.Base at base
  cases origin : v.origin with
  | goroutine task epoch => exact absurd origin (shared task epoch)
  | recover =>
    rw [origin] at base
    exact base.1
  | _ => simpa [origin] using base

/-! ### The outcome of an attempt -/

/-- The program may write an outcome of the copy. -/
structure Writable (v : View) (c row : TaskInstance) : Prop where
  base : v.Base c
  same : Carries c row
  unspent : ∀ task epoch, v.origin = .goroutine task epoch → v.spent = false

section Outcome

variable {c row : TaskInstance}

theorem Writable.after (writable : Writable v c row) {o : Op} (quiet : o.quiet = true) (reply : o.Reply)
    (unspent : (v.after o reply).spent = v.spent) : Writable (v.after o reply) c row where
  base := writable.base.onward ((Onward.refl v).after quiet reply)
  same := writable.same
  unspent task epoch origin := by
    rw [unspent]
    exact writable.unspent task epoch (((Onward.refl v).after quiet reply).origin.symm.trans origin)

theorem finalizeWrite_safe (writable : Writable v c row) (concludes : v.Concludes c row) :
    (finalizeWrite row).Safe (footprint env)
      (Prog.returns fun _ u => ∃ reply, u = v.after (.updateTaskInstanceGuarded row row.executorRef) reply) v := by
  have permitted : Footprint env (.updateTaskInstanceGuarded row row.executorRef) v :=
    ⟨writable.unspent, c, writable.base, writable.same.executorRef, concludes⟩
  exact safe_attempt permitted (fun reply _ _ _ => ⟨reply, rfl⟩) fun reply _ _ _ => ⟨reply, rfl⟩

theorem recordFailure_safe (writable : Writable v c row) (onward : Onward v₀ v) :
    (recordFailure row).Safe (footprint env) (Ends v₀ fun ti u => ti ∈ u.hand ∧ Carries c ti) v := by
  refine safe_perform trivial fun now _ => ?_
  have later := writable.after (o := .now) rfl now rfl
  let failed : TaskInstance :=
    { row with finishedAt := some now, state := if row.tryNumber ≤ row.maxRetries then .upForRetry else .failed }
  have same : Carries c failed := ⟨writable.same.key, writable.same.tryNumber, writable.same.maxRetries, writable.same.executorRef⟩
  have concludes : (v.after .now now).Concludes c failed := by
    refine .fails same ?_
    rw [← writable.same.tryNumber, ← writable.same.maxRetries]
  have quiet : (Op.updateTaskInstanceGuarded failed failed.executorRef).quiet = true := by
    by_cases again : row.tryNumber ≤ row.maxRetries
    · simp [Op.quiet, failed, again]
    · simp [Op.quiet, failed, again]
  refine Prog.Safe.andThen _ (finalizeWrite_safe ⟨later.base, same, later.unspent⟩ concludes) fun _ u ended => ?_
  obtain ⟨reply, rfl⟩ := ended
  exact .ok ((onward.after rfl now).after quiet reply) ⟨List.mem_cons_self, same⟩

/-- The collection comes right after the guarded write of a success. -/
theorem collectTaskOutput_safe (collects : v.Collects row)
    (written : ∃ reply, v.last = some ⟨.updateTaskInstanceGuarded row row.executorRef, reply⟩) (onward : Onward v₀ v) :
    (collectTaskOutput env row).Safe (footprint env) (Ends v₀ fun _ _ => True) v := by
  have still {o : Op} (quiet : o.quiet = true) {t : View} (collects : t.Collects row) (reply : o.Reply) :
      (t.after o reply).Collects row := by
    obtain ⟨c, base, rest⟩ := collects
    exact ⟨c, base.onward ((Onward.refl t).after quiet reply), rest⟩
  refine safe_perform ⟨collects, written⟩ fun output _ => ?_
  have read := onward.after (o := .readOutput row) rfl output
  have collects := still (o := .readOutput row) rfl collects output
  cases output with
  | none => exact .ok read trivial
  | some output =>
    show Prog.Safe _ (if validOutput env output = true then _ else _) _ _
    split
    · -- the file goes whether or not the output could be stored
      have removes (reply : Except StoreError Unit) : (perform (.removeOutput row)).Safe (footprint env)
          (Ends v₀ fun _ _ => True) ((v.after (.readOutput row) (some output)).after (.setTaskOutput row output) reply) := by
        have stored := still (o := .setTaskOutput row output) rfl collects reply
        refine Prog.Safe.tracked ⟨stored, .inr ⟨output, reply, rfl⟩⟩ fun removed _ => ?_
        exact .ok ((read.after (o := .setTaskOutput row output) rfl reply).after (o := .removeOutput row) rfl removed) trivial
      have permitted : Footprint env (.setTaskOutput row output) (v.after (.readOutput row) (some output)) := ⟨collects, rfl⟩
      exact safe_logged permitted fun reply _ => removes reply
    · rename_i invalid
      refine Prog.Safe.tracked ⟨collects, .inl ⟨output, rfl, by simpa using invalid⟩⟩ fun removed _ => ?_
      exact .ok (read.after (o := .removeOutput row) rfl removed) trivial

theorem finalizeTask_safe (writable : Writable v c row) (code : Int) (onward : Onward v₀ v) :
    (finalizeTask env row code).Safe (footprint env) (Ends v₀ fun _ _ => True) v := by
  unfold finalizeTask
  split
  · refine safe_perform trivial fun now _ => ?_
    have later := writable.after (o := .now) rfl now rfl
    let ended : TaskInstance :=
      { row with state := if code = skipExitCode then .skipped else .success, finishedAt := some now }
    have same : Carries c ended := ⟨writable.same.key, writable.same.tryNumber, writable.same.maxRetries, writable.same.executorRef⟩
    have concludes : (v.after .now now).Concludes c ended := by
      refine .succeeds same ?_
      by_cases skipped : code = skipExitCode
      · exact .inr (if_pos skipped)
      · exact .inl (if_neg skipped)
    have quiet : (Op.updateTaskInstanceGuarded ended ended.executorRef).quiet = true := by
      by_cases skipped : code = skipExitCode
      · simp [Op.quiet, ended, skipped]
      · simp [Op.quiet, ended, skipped]
    refine Prog.Safe.andThen _ (finalizeWrite_safe ⟨later.base, same, later.unspent⟩ concludes) fun _ u written => ?_
    obtain ⟨reply, rfl⟩ := written
    split
    · rename_i zero
      have success : ended.state = .success := if_neg (by rw [zero]; decide)
      refine collectTaskOutput_safe ⟨c, ?_, same, success⟩ ⟨reply, rfl⟩ ((onward.after rfl now).after quiet reply)
      exact later.base.onward ((Onward.refl _).after quiet reply)
    · exact .ok ((onward.after rfl now).after quiet reply) trivial
  · exact Ends.bind (recordFailure_safe writable onward) fun _ _ onward _ => .ok onward trivial

theorem finalizeTaskLost_safe (writable : Writable v c row) (onward : Onward v₀ v) :
    (finalizeTaskLost row).Safe (footprint env) (Ends v₀ fun _ _ => True) v :=
  Ends.bind (recordFailure_safe writable onward) fun _ _ onward _ => .ok onward trivial

theorem awaitCompletion_safe (writable : Writable v c row) (onward : Onward v₀ v) :
    (awaitCompletion env row).Safe (footprint env) (Ends v₀ fun _ _ => True) v := by
  refine safe_perform trivial fun outcome _ => ?_
  have later := writable.after (o := .await row.executorRef) rfl outcome rfl
  cases outcome with
  | exited code => exact finalizeTask_safe later code (onward.after rfl _)
  | lost => exact finalizeTaskLost_safe later (onward.after rfl _)

theorem failUnlaunched_safe (writable : Writable v c row) (onward : Onward v₀ v) :
    (failUnlaunched row).Safe (footprint env) (Ends v₀ fun _ _ => True) v := by
  refine safe_perform trivial fun now _ => ?_
  have later := writable.after (o := .now) rfl now rfl
  have same : Carries c { row with startedAt := some now } :=
    ⟨writable.same.key, writable.same.tryNumber, writable.same.maxRetries, writable.same.executorRef⟩
  exact Ends.bind (recordFailure_safe ⟨later.base, same, later.unspent⟩ (onward.after rfl now)) fun _ _ onward _ =>
    .ok onward trivial

end Outcome

/-! ### The goroutine of an attempt -/

section Goroutine

variable {run : DagRun} {t : Task} {ti : TaskInstance} {epoch : Nat}

/-- The goroutine of a dispatched attempt, before and after its launch. -/
structure Running (run : DagRun) (t : Task) (ti : TaskInstance) (epoch : Nat) (v : View) : Prop where
  origin : v.origin = .goroutine (.runTask run t ti) epoch
  unspent : v.spent = false

theorem Running.writable (running : Running run t ti epoch v) : Writable v ti ti where
  base := by simp [View.Base, running.origin, Goroutine.instance]
  same := .refl ti
  unspent _ _ _ := running.unspent

theorem Running.after (running : Running run t ti epoch v) {o : Op} (quiet : o.quiet = true) (reply : o.Reply)
    (unspent : (v.after o reply).spent = v.spent) : Running run t ti epoch (v.after o reply) where
  origin := ((Onward.refl v).after quiet reply).origin.trans running.origin
  unspent := unspent.trans running.unspent

theorem giveBack_safe (running : Running run t ti epoch v) (refused : v.launch = some .noWorker) :
    (giveBack ti).Safe (footprint env) (fun _ _ => True) v := by
  have concludes : v.Concludes ti { ti with tryNumber := ti.tryNumber - 1, state := .scheduled, executorRef := .none } :=
    .givesBack (by simp [View.Unused, running.origin, refused]) rfl (.inl rfl) rfl rfl rfl
  exact safe_attempt ⟨running.writable.unspent, ti, running.writable.base, rfl, concludes⟩
    (fun _ _ _ _ => trivial) fun _ _ _ _ => trivial

/-- The process is started: the row is marked as running and polled. -/
theorem marked_safe (running : Running run t ti epoch v) (now : Time) : Prog.Safe (footprint env) (do
    let ti := { ti with state := .running, startedAt := some now }
    match ← (updateTaskInstanceGuarded ti ti.executorRef).attempt with
    | .error _ => pure ()
    | .ok false => perform (.cancel ti.executorRef)
    | .ok true => awaitCompletion env ti) (fun _ _ => True) v := by
  let row : TaskInstance := { ti with state := .running, startedAt := some now }
  have same : Carries ti row := ⟨rfl, rfl, rfl, rfl⟩
  have permitted : Footprint env (.updateTaskInstanceGuarded row row.executorRef) v :=
    ⟨running.writable.unspent, ti, running.writable.base, rfl, .runs same rfl⟩
  refine safe_attempt permitted (fun reply applied _ _ => ?_) fun _ _ _ _ => trivial
  have later := running.after (o := .updateTaskInstanceGuarded row row.executorRef) rfl reply (Bool.or_false _)
  cases applied with
  | false => exact Prog.Safe.tracked trivial fun _ _ => trivial
  | true =>
    have writable : Writable (v.after (.updateTaskInstanceGuarded row row.executorRef) reply) ti row :=
      ⟨later.writable.base, same, later.writable.unspent⟩
    exact (awaitCompletion_safe writable (.refl _)).mono fun _ _ _ => trivial

/-- What follows the read of the row. -/
theorem launched_safe (running : Running run t ti epoch v) (waits : v.launch = none) : Prog.Safe (footprint env) (do
    match ← perform (.launch t.workerGroup ti.executorRef) with
    | .noWorker => giveBack ti
    | .failed => failUnlaunched ti
    | .started =>
      let now ← timeNow
      let ti := { ti with state := .running, startedAt := some now }
      match ← (updateTaskInstanceGuarded ti ti.executorRef).attempt with
      | .error _ => pure ()
      | .ok false => perform (.cancel ti.executorRef)
      | .ok true => awaitCompletion env ti) (fun _ _ => True) v := by
  refine safe_perform ⟨waits, run, t, ti, epoch, running.origin, rfl⟩ fun answer _ => ?_
  have later := running.after (o := .launch t.workerGroup ti.executorRef) rfl answer rfl
  cases answer with
  | noWorker => exact giveBack_safe later rfl
  | failed => exact (failUnlaunched_safe later.writable (.refl _)).mono fun _ _ _ => trivial
  | started => exact safe_perform trivial fun now _ => marked_safe (later.after (o := .now) rfl now rfl) now

theorem launchTask_safe (running : Running run t ti epoch v) (waits : v.launch = none) :
    (launchTask env t ti).Safe (footprint env) (fun _ _ => True) v := by
  have reads : Footprint env (.getTaskInstance ti.key) v := fun operates => by
    simp [View.Operates, running.origin] at operates
  refine Prog.Safe.tracked reads fun reply _ => ?_
  have later := running.after (o := .getTaskInstance ti.key) rfl reply rfl
  cases reply with
  | error e => exact launched_safe later waits
  | ok cur =>
    show Prog.Safe _ (if cur.state == .cancelled then _ else _) _ _
    split
    · trivial
    · exact launched_safe later waits

/-- What follows the staging of a task. -/
theorem staged_safe (running : Running run t ti epoch v) (waits : v.launch = none) (ok : Bool) :
    Prog.Safe (footprint env) (if !ok then failUnlaunched ti else
      match t.type with
      | .shell | .jar | .python | .sql => launchTask env t ti
      | .http => if t.http then launchTask env t ti else failUnlaunched ti
      | .subdag | .other => failUnlaunched ti) (fun _ _ => True) v := by
  have fails (v : View) (running : Running run t ti epoch v) : (failUnlaunched ti).Safe (footprint env) (fun _ _ => True) v :=
    (failUnlaunched_safe running.writable (.refl _)).mono fun _ _ _ => trivial
  split
  · exact fails v running
  · split
    · exact launchTask_safe running waits
    · exact launchTask_safe running waits
    · exact launchTask_safe running waits
    · exact launchTask_safe running waits
    · split
      · exact launchTask_safe running waits
      · exact fails v running
    · exact fails v running
    · exact fails v running

theorem runTask_safe (running : Running run t ti epoch v) (waits : v.launch = none) :
    (runTask env t ti).Safe (footprint env) (fun _ _ => True) v := by
  unfold runTask
  dsimp only
  by_cases staging : t.type = .shell ∧ t.project ≠ ""
  · rw [if_pos staging]
    exact safe_perform trivial fun ok _ => staged_safe (running.after (o := .stageProject t.project) rfl ok rfl) waits ok
  · rw [if_neg staging]
    exact staged_safe running waits true

end Goroutine

/-! ### Recovery -/

section Recovery

variable {ti : TaskInstance} {rest : List TaskInstance}

/-- `Recover` may still write the outcomes of the copies that are to come. -/
structure Recovers (rest : List TaskInstance) (v : View) : Prop where
  origin : v.origin = .recover
  base : ∀ ti ∈ rest, v.Base ti

theorem Recovers.onward (recovers : Recovers rest v) (onward : Onward v u) : Recovers rest u :=
  ⟨onward.origin.trans recovers.origin, fun ti member => (recovers.base ti member).onward onward⟩

theorem Recovers.tail (recovers : Recovers (ti :: rest) v) : Recovers rest v :=
  ⟨recovers.origin, fun ti member => recovers.base ti (.tail _ member)⟩

theorem Recovers.writable (recovers : Recovers (ti :: rest) v) : Writable v ti ti where
  base := recovers.base ti (.head _)
  same := .refl ti
  unspent task epoch origin := by simp [recovers.origin] at origin

/-- The end of a round of either loop: a poll was started, or an attempt given back, for no
other task. -/
def Recovered (ti : TaskInstance) (v : View) (result : Except Failure Unit) (u : View) : Prop :=
  result = .ok () → u.origin = .recover ∧ u.resumed = v.resumed ∧ (∀ c ∈ v.hand, c ∈ u.hand) ∧
    (∀ key ∈ u.attached, key = ti.key ∨ key ∈ v.attached) ∧ ∀ key ∈ u.returned, key = ti.key ∨ key ∈ v.returned

theorem Recovers.ended (recovers : Recovers (ti :: rest) v) (onward : Onward v u) (result : Except Failure Unit) :
    Recovered ti v result u := by
  refine fun _ => ⟨onward.origin.trans recovers.origin, onward.resumed, onward.hand, fun key member => .inr ?_,
    fun key member => .inr ?_⟩
  · rwa [← onward.attached]
  · rwa [← onward.returned]

/-- A round that writes the outcome of the first copy. -/
theorem Recovers.ends (recovers : Recovers (ti :: rest) v) (onward : Onward v u) {p : Act Unit}
    (safe : p.Safe (footprint env) (Ends u fun _ _ => True) u) : p.Safe (footprint env) (Recovered ti v) u :=
  safe.mono fun result _ ended => recovers.ended (onward.trans ended.1) result

theorem reattach_safe (recovers : Recovers (ti :: rest) v) (onward : Onward v u) {row : TaskInstance} (same : Carries ti row) :
    (reattach row).Safe (footprint env) (Recovered ti v) u := by
  have later := recovers.onward onward
  refine Prog.Safe.tracked ⟨later.origin, ti, later.base ti (.head _), same⟩ fun _ _ _ => ?_
  refine ⟨later.origin, onward.resumed, onward.hand, fun key member => ?_, fun key member => .inr ?_⟩
  · rcases List.mem_cons.mp member with rfl | old
    · exact .inl same.key
    · exact .inr (onward.attached ▸ old)
  · exact onward.returned ▸ member

/-- The guarded write that marks the row as running, and what follows it. -/
theorem resumed_safe (recovers : Recovers (ti :: rest) v) (onward : Onward v u) (started : Time) : Prog.Safe (footprint env) (do
    let ti := { ti with state := .running, startedAt := some started }
    match ← (updateTaskInstanceGuarded ti ti.executorRef).attempt with
    | .error _ => pure ()
    | .ok false => perform (.cancel ti.executorRef)
    | .ok true => reattach ti) (Recovered ti v) u := by
  let row : TaskInstance := { ti with state := .running, startedAt := some started }
  have same : Carries ti row := ⟨rfl, rfl, rfl, rfl⟩
  have writable := (recovers.onward onward).writable
  have permitted : Footprint env (.updateTaskInstanceGuarded row row.executorRef) u :=
    ⟨writable.unspent, ti, writable.base, rfl, .runs same rfl⟩
  have later (reply : (Op.updateTaskInstanceGuarded row row.executorRef).Reply) :
      Onward v (u.after (.updateTaskInstanceGuarded row row.executorRef) reply) :=
    onward.after (o := .updateTaskInstanceGuarded row row.executorRef) rfl reply
  refine safe_attempt permitted (fun reply applied _ _ => ?_) fun reply _ _ _ => recovers.ended (later reply) _
  cases applied with
  | false =>
    refine Prog.Safe.tracked trivial fun cancelled _ => ?_
    exact recovers.ended ((later reply).after (o := .cancel row.executorRef) rfl cancelled) _
  | true => exact reattach_safe recovers (later reply) same

theorem recoverQueued_safe (recovers : Recovers (ti :: rest) v) (queued : ti.state = .queued) (apart : ti.key ∉ v.attached)
    (first : v.resumed = []) : (recoverQueued env ti).Safe (footprint env) (Recovered ti v) v := by
  refine safe_perform trivial fun status _ => ?_
  have probed : Onward v (v.after (.probe ti.executorRef) status) := (Onward.refl v).after rfl status
  have writable := (recovers.onward probed).writable
  cases status with
  | none => exact recovers.ended probed _
  | some status =>
    cases status with
    | exited code => exact recovers.ends probed (finalizeTask_safe writable code (.refl _))
    | running =>
      dsimp only
      split
      · rename_i started _
        exact resumed_safe recovers probed started
      · exact safe_perform trivial fun now _ => resumed_safe recovers (probed.after (o := .now) rfl now) now
    | unknown =>
      let back : TaskInstance := { ti with
        state := .scheduled, executorRef := .none,
        tryNumber := if ti.tryNumber > 0 then ti.tryNumber - 1 else ti.tryNumber }
      have unused : (v.after (.probe ti.executorRef) (some .unknown)).Unused ti := by
        unfold View.Unused
        rw [probed.origin, recovers.origin]
        exact ⟨queued, rfl, apart, first⟩
      have charged : back.tryNumber = ti.tryNumber - 1 ∨ (back.tryNumber = ti.tryNumber ∧ ti.tryNumber ≤ 0) := by
        by_cases positive : ti.tryNumber > 0
        · exact .inl (if_pos positive)
        · exact .inr ⟨if_neg positive, by omega⟩
      have permitted : Footprint env (.updateTaskInstanceGuarded back ti.executorRef)
          (v.after (.probe ti.executorRef) (some .unknown)) :=
        ⟨writable.unspent, ti, writable.base, rfl, .givesBack unused rfl charged rfl rfl rfl⟩
      have given (reply : (Op.updateTaskInstanceGuarded back ti.executorRef).Reply) (result : Except Failure Unit) :
          Recovered ti v result ((v.after (.probe ti.executorRef) (some .unknown)).after
            (.updateTaskInstanceGuarded back ti.executorRef) reply) := by
        refine fun _ => ⟨recovers.origin, rfl, fun c held => .tail _ held, fun key member => .inr member, fun key member => ?_⟩
        rcases View.returned_after member with old | ⟨row, ref, same, _, rfl⟩
        · exact .inr old
        · cases same
          exact .inl rfl
      exact safe_attempt permitted (fun reply _ _ _ => given reply _) fun reply _ _ _ => given reply _

theorem recoverRunning_safe (recovers : Recovers (ti :: rest) v) :
    (recoverRunning env ti).Safe (footprint env) (Recovered ti v) v := by
  refine safe_perform trivial fun status _ => ?_
  have probed : Onward v (v.after (.probe ti.executorRef) status) := (Onward.refl v).after rfl status
  have writable := (recovers.onward probed).writable
  cases status with
  | none => exact recovers.ended probed _
  | some status =>
    cases status with
    | exited code => exact recovers.ends probed (finalizeTask_safe writable code (.refl _))
    | running => exact reattach_safe recovers probed (.refl ti)
    | unknown => exact recovers.ends probed (finalizeTaskLost_safe writable (.refl _))

/-- The copies that `Recover` has listed as queued and not looked at yet. -/
structure Backlog (rest : List TaskInstance) (v : View) : Prop where
  origin : v.origin = .recover
  held : ∀ ti ∈ rest, ti ∈ v.hand
  queued : ∀ ti ∈ rest, ti.state = .queued
  untouched : ∀ ti ∈ rest, ti.key ∉ v.attached ∧ ti.key ∉ v.returned
  distinct : (rest.map TaskInstance.key).Nodup
  first : v.resumed = []

theorem Backlog.recovers (backlog : Backlog rest v) : Recovers rest v where
  origin := backlog.origin
  base ti member := by
    unfold View.Base
    rw [backlog.origin]
    exact ⟨backlog.held ti member, .inl ⟨backlog.queued ti member, (backlog.untouched ti member).2⟩⟩

theorem Backlog.tail (backlog : Backlog (ti :: rest) v) (ended : Recovered ti v (.ok ()) u) : Backlog rest u := by
  obtain ⟨origin, resumed, hand, attached, returned⟩ := ended rfl
  obtain ⟨first, others⟩ := List.nodup_cons.mp backlog.distinct
  have apart {other : TaskInstance} (member : other ∈ rest) : other.key ≠ ti.key := fun same =>
    first (List.mem_map.mpr ⟨other, member, same⟩)
  refine ⟨origin, fun other member => hand other (backlog.held other (.tail _ member)),
    fun other member => backlog.queued other (.tail _ member), fun other member => ⟨fun polled => ?_, fun given => ?_⟩, others,
    resumed.trans backlog.first⟩
  · exact (attached _ polled).elim (apart member) (backlog.untouched other (.tail _ member)).1
  · exact (returned _ given).elim (apart member) (backlog.untouched other (.tail _ member)).2

theorem recover_conduct (origin : v.origin = .recover) (fresh : v.attached = [] ∧ v.returned = [] ∧ v.resumed = []) :
    (recover env).Safe (footprint env) (fun _ _ => True) v := by
  have lists (u : View) (origin : u.origin = .recover) (state : TaskState) :
      Footprint env (.listTaskInstancesByState state) u := fun operates => by simp [View.Operates, origin] at operates
  refine safe_call (lists v origin .queued) (fun reply queued honest read => ?_) fun _ _ _ _ => trivial
  cases read
  refine Prog.Safe.bind (fun r t => r = .ok () → t.origin = .recover) ?_ (fun _ t ended => ?_) fun _ _ _ => trivial
  · apply Prog.Safe.forEach Backlog
    · refine ⟨origin, fun ti member => List.mem_append_left _ member, honest.1, fun ti _ => ⟨?_, ?_⟩, honest.2, fresh.2.2⟩
      · show ti.key ∉ v.attached
        rw [fresh.1]
        exact List.not_mem_nil
      · show ti.key ∉ v.returned
        rw [fresh.2.1]
        exact List.not_mem_nil
    · intro ti rest t backlog
      have untouched := backlog.untouched ti (.head _)
      refine (recoverQueued_safe backlog.recovers (backlog.queued ti (.head _)) untouched.1 backlog.first).mono fun r u ended => ?_
      cases r with
      | error e => exact fun impossible => nomatch impossible
      | ok _ => exact backlog.tail ended
    · exact fun t backlog _ => backlog.origin
  · have origin := ended rfl
    refine safe_call (lists t origin .running) (fun reply running honest read => ?_) fun _ _ _ _ => trivial
    cases read
    apply Prog.Safe.forEach fun rest u => u.origin = .recover ∧ ∀ ti ∈ rest, ti ∈ u.hand ∧ ti ∈ u.resumed
    · exact ⟨origin, fun ti member => ⟨List.mem_append_left _ member, member⟩⟩
    · intro ti rest u kept
      have recovers : Recovers (ti :: rest) u := by
        refine ⟨kept.1, fun other member => ?_⟩
        unfold View.Base
        rw [kept.1]
        exact ⟨(kept.2 other member).1, .inr (kept.2 other member).2⟩
      refine (recoverRunning_safe recovers).mono fun r u ended => ?_
      cases r with
      | error e => trivial
      | ok _ =>
        obtain ⟨origin, resumed, hand, _⟩ := ended rfl
        refine ⟨origin, fun other member => ?_⟩
        obtain ⟨held, listed⟩ := kept.2 other (.tail _ member)
        exact ⟨hand other held, resumed ▸ listed⟩
    · exact fun _ _ => trivial

end Recovery

end Cronova.Scheduler
