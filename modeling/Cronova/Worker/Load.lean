import Cronova.Worker.Hub

/-! The load that `groupExec.Launch` compares (`internal/workerhub/hub.go`).

The counter of a session goes up and down beside the entries of `hub.refs` and is counted anew by a
reconnect only. Whether the two agree is decided by `handleTaskEvent`, the one place where an entry
leaves or enters the running phase.
-/

set_option autoImplicit false

namespace Cronova.Worker.Hub

open Calendar (Time)
open Process

/-- One element changes, and the count with it. -/
theorem countP_modify {α : Type} (p : α → Bool) (f : α → α) {l : List α} {i : Nat} {a : α} (found : l[i]? = some a) :
    (l.modify i f).countP p + (if p a then 1 else 0) = l.countP p + (if p (f a) then 1 else 0) := by
  induction l generalizing i with
  | nil => simp at found
  | cons x rest ih =>
    cases i with
    | zero =>
      simp only [List.getElem?_cons_zero, Option.some.injEq] at found
      subst found
      simp only [List.modify_zero_cons, List.countP_cons]
      omega
    | succ i =>
      have later := ih (i := i) (by simpa using found)
      simp only [List.modify_succ_cons, List.countP_cons]
      omega

theorem countP_map_same {α : Type} (p : α → Bool) (f : α → α) (l : List α) (same : ∀ a ∈ l, p (f a) = p a) :
    (l.map f).countP p = l.countP p := by
  rw [List.countP_map]
  apply List.countP_congr
  intro a member
  simp [same a member]

/-- The counters of the live sessions are the numbers of running attempts. -/
def Balanced (s : State) : Prop :=
  ∀ (w : WorkerID) (id : Nat) (st : Stream), s.sessions w = some id → s.streams[id]? = some st → st.active = s.load w

/-- Where an event and the counter agree about an entry: an exit is reported of an entry of the map
that runs, or once more; nothing else moves an entry of the map out of the running phase or into it. -/
def Accounted (a : Assignment) (launchError : Bool) : Phase → Prop
  | .exited _ => a.phase ≠ .unknown ∧ (a.phase = .running → a.tracked = true)
  | .running => a.tracked = true → (a.phase = .running ↔ launchError = false)
  | .unknown => a.tracked = true → a.phase ≠ .running

instance (a : Assignment) (launchError : Bool) : ∀ phase, Decidable (Accounted a launchError phase)
  | .exited _ => inferInstanceAs (Decidable (_ ∧ _))
  | .running => inferInstanceAs (Decidable (_ → (_ ↔ _)))
  | .unknown => inferInstanceAs (Decidable (_ → ¬_))

/-- What is asked of an event that is about to be recorded, while its worker has a session. -/
def Recordable (s : State) (st : Stream) : Stage → Prop
  | .recording ev object => ∀ a ∈ s.assignments[object]?, s.sessions st.worker ≠ none → Accounted a ev.launchError ev.phase
  | _ => True

instance (s : State) (st : Stream) : ∀ stage, Decidable (Recordable s st stage)
  | .recording _ object => inferInstanceAs (Decidable (∀ a ∈ s.assignments[object]?, s.sessions st.worker ≠ none → _))
  | .greeted | .registered _ | .persisted | .reading | .leaving | .dropped | .ended => .isTrue trivial

/-- Every event is one that the counter follows. -/
def Tallied (s : State) : Step → Prop
  | .record id _ => ∀ st ∈ s.streams[id]?, Recordable s st st.stage
  | _ => True

def Tallied.decide (s : State) : ∀ label, Decidable (Tallied s label)
  | .record id _ => inferInstanceAs (Decidable (∀ st ∈ s.streams[id]?, Recordable s st st.stage))
  | .enroll _ | .hello _ _ _ _ | .register _ | .adopt _ | .persist _ _ _ | .acknowledge _ _ | .receive _ _ _ | .hangUp _
  | .dropSession _ | .goodbye _ | .write _ | .sweep _ | .inspect _ _ | .markLost | .setWorkerDraining _ _ | .setDraining _ _
  | .deleteWorker _ | .disconnect _ | .launch _ _ _ | .forget _ => .isTrue trivial

instance (s : State) (label : Step) : Decidable (Tallied s label) := Tallied.decide s label

/-! ### The entries -/

namespace State

variable {s : State} {w : WorkerID}

@[simp] theorem assignments_onCurrent (s : State) (w : WorkerID) (f : Stream → Stream) :
    (s.onCurrent w f).assignments = s.assignments := by
  unfold onCurrent
  split <;> rfl

@[simp] theorem assignments_evict (s : State) (id : Nat) : (s.evict id).assignments = s.assignments := by
  unfold evict
  split
  · split <;> rfl
  · rfl

@[simp] theorem assignments_evicts (ids : List Nat) (s : State) : (ids.foldl evict s).assignments = s.assignments := by
  induction ids generalizing s with
  | nil => rfl
  | cons id rest ih => rw [List.foldl_cons, ih, assignments_evict]

@[simp] theorem assignments_disconnects (s : State) (w : WorkerID) : (s.disconnects w).assignments = s.assignments := by
  unfold disconnects
  split
  · exact assignments_evict s _
  · rfl

theorem load_congr {t : State} (same : t.assignments = s.assignments) : t.load w = s.load w := by
  rw [load, load, same]

theorem load_map {t : State} {f : Assignment → Assignment} (mapped : t.assignments = s.assignments.map f)
    (same : ∀ a ∈ s.assignments, Running w (f a) = Running w a) : t.load w = s.load w := by
  rw [load, load, mapped]
  exact countP_map_same _ f _ same

/-- An entry that does not count for a worker may go. -/
theorem load_untracks {ref : Ref} (idle : ∀ object a, s.lookup ref = some object → s.assignments[object]? = some a →
    Running w a = false) : (s.untracks ref).load w = s.load w := by
  unfold untracks
  cases known : s.lookup ref with
  | none => rfl
  | some object =>
    cases entry : s.assignments[object]? with
    | none =>
      have past : s.assignments.length ≤ object := List.getElem?_eq_none_iff.mp entry
      simp only [load]
      rw [List.modify_eq_self past]
    | some a =>
      have still := countP_modify (Running w) (fun a : Assignment => { a with tracked := false }) entry
      rw [idle object a known entry] at still
      simpa [load, Running] using still

/-- The worker of an entry. -/
def holder (s : State) (object : Nat) : Option WorkerID := (s.assignments[object]?).map (·.worker)

theorem holder_map {t : State} {f : Assignment → Assignment} (mapped : t.assignments = s.assignments.map f)
    (same : ∀ a, (f a).worker = a.worker) (object : Nat) : t.holder object = s.holder object := by
  rw [holder, holder, mapped, List.getElem?_map, Option.map_map]
  congr 1
  funext a
  exact same a

theorem holder_modify {t : State} {f : Assignment → Assignment} {i : Nat} (changed : t.assignments = s.assignments.modify i f)
    (same : ∀ a, (f a).worker = a.worker) (object : Nat) : t.holder object = s.holder object := by
  rw [holder, holder, changed, List.getElem?_modify, Option.map_eq_map, Option.map_map]
  congr 1
  funext a
  by_cases here : i = object <;> simp [here, same]

theorem holder_untracks (s : State) (ref : Ref) (object : Nat) : (s.untracks ref).holder object = s.holder object := by
  unfold untracks
  cases s.lookup ref with
  | none => rfl
  | some i => exact holder_modify (i := i) (f := ({ · with tracked := false })) rfl (fun _ => rfl) object

theorem holder_append {t : State} {more : List Assignment} (extended : t.assignments = s.assignments ++ more) {object : Nat}
    (held : s.holder object = some w) : t.holder object = some w := by
  obtain ⟨a, entry, worker⟩ := Option.map_eq_some_iff.mp held
  rw [holder, extended, List.getElem?_append_left (List.getElem?_eq_some_iff.mp entry).1, entry, Option.map_some, worker]

end State

theorem Assignment.record_worker (a : Assignment) (ev : Event) (now : Time) : (a.record ev now).worker = a.worker := by
  unfold Assignment.record
  cases ev.phase <;> cases ev.launchError <;> rfl

theorem Assignment.record_lost (a : Assignment) (ev : Event) (now : Time) : (a.record ev now).lost = a.lost := by
  unfold Assignment.record
  cases ev.phase <;> cases ev.launchError <;> rfl

theorem Assignment.record_tracked (a : Assignment) (ev : Event) (now : Time) : (a.record ev now).tracked = a.tracked := by
  unfold Assignment.record
  cases ev.phase <;> cases ev.launchError <;> rfl

theorem Assignment.record_phase (a : Assignment) (ev : Event) (now : Time) :
    (a.record ev now).phase = if ev.launchError then .exited 127 else ev.phase := by
  unfold Assignment.record
  cases ev.phase <;> cases ev.launchError <;> rfl

theorem State.running_iff {w : WorkerID} {a : Assignment} :
    Running w a = true ↔ a.tracked = true ∧ a.worker = w ∧ a.phase = .running := by
  simp [Running, and_assoc]

theorem State.running_record (a : Assignment) (ev : Event) (now : Time) :
    Running a.worker (a.record ev now) = true ↔ a.tracked = true ∧ ev.phase = .running ∧ ev.launchError = false := by
  rw [running_iff, a.record_tracked, a.record_worker, a.record_phase]
  cases ev.launchError <;> simp

/-- What the counter does is what the entry does. -/
theorem Accounted.balance {a : Assignment} {ev : Event} (accounted : Accounted a ev.launchError ev.phase) (now : Time) :
    if a.released ev then State.Running a.worker a = true ∧ State.Running a.worker (a.record ev now) = false
    else State.Running a.worker (a.record ev now) = State.Running a.worker a := by
  have after := State.running_record a ev now
  have before := State.running_iff (w := a.worker) (a := a)
  cases phase : ev.phase with
  | exited code =>
    rw [phase] at accounted
    obtain ⟨known, tracked⟩ := accounted
    have gone : State.Running a.worker (a.record ev now) = false := by
      rw [Bool.eq_false_iff, Ne, after, phase]
      simp
    cases running : a.phase with
    | running =>
      have counted : State.Running a.worker a = true := before.mpr ⟨tracked running, rfl, running⟩
      simp [Assignment.released, Phase.isExited, phase, running, counted, gone]
    | exited code' =>
      have idle : State.Running a.worker a = false := by
        rw [Bool.eq_false_iff, Ne, before, running]
        simp
      simp [Assignment.released, Phase.isExited, phase, running, idle, gone]
    | unknown => exact absurd running known
  | running =>
    have kept : a.released ev = false := by simp [Assignment.released, Phase.isExited, phase]
    rw [phase] at accounted
    rw [kept, if_neg Bool.false_ne_true, Bool.eq_iff_iff, after, before]
    constructor
    · rintro ⟨tracked, -, launched⟩
      exact ⟨tracked, rfl, (accounted tracked).mpr launched⟩
    · rintro ⟨tracked, -, running⟩
      exact ⟨tracked, phase, (accounted tracked).mp running⟩
  | unknown =>
    have kept : a.released ev = false := by simp [Assignment.released, Phase.isExited, phase]
    rw [phase] at accounted
    rw [kept, if_neg Bool.false_ne_true, Bool.eq_iff_iff, after, before, phase]
    constructor
    · rintro ⟨-, running, -⟩
      cases running
    · rintro ⟨tracked, -, running⟩
      exact absurd running (accounted tracked)

/-- Entries stay with their worker. -/
theorem Takes.holder {o : Options} {s t : State} {label : Step} (taken : Takes o s label t) {object : Nat} {w : WorkerID}
    (held : s.holder object = some w) : t.holder object = some w := by
  have of_same (same : t.assignments = s.assignments) : t.holder object = some w := by
    rw [State.holder, same]
    exact held
  cases taken with
  | register found greeted =>
    rw [State.holder_map (congrArg _ (s.assignments_disconnects _)) fun a => by split <;> rfl]
    exact held
  | @adopt id st ref rest found registered =>
    have adopted : (s.adopts st.worker ref).holder object = some w := by
      unfold State.adopts
      split
      · exact held
      · exact State.holder_append (State.assignments_onCurrent _ _ _) held
    exact adopted
  | @record id i st a ev now found recording entry =>
    have recorded : (s.records st.worker ev i a now).holder object = s.holder object := by
      refine State.holder_modify (i := i) (f := (·.record ev now)) ?_ (fun a => a.record_worker ev now) object
      unfold State.records
      split <;> simp
    exact recorded.trans held
  | sweep now idle =>
    rw [State.holder_map (congrArg _ (s.assignments_evicts _)) fun a => by split <;> rfl]
    exact held
  | markLost sweeping =>
    rw [State.holder_map rfl fun a => by split <;> rfl]
    exact held
  | @launch group ref best st found least fresh =>
    have cleared : (s.untracks ref).holder object = some w := (s.holder_untracks ref object).trans held
    unfold State.assigns
    dsimp only
    split <;> exact State.holder_append rfl cleared
  | forget => exact (s.holder_untracks _ object).trans held
  | acknowledgeFails => exact of_same (s.assignments_evict _)
  | dropSession => exact of_same (s.assignments_evict _)
  | setDraining => exact of_same (s.assignments_onCurrent _ _)
  | disconnect => exact of_same (s.assignments_disconnects _)
  | _ => exact held

/-- A handler that is about to record an event holds an entry of its own worker. -/
def Owned (s : State) : Prop :=
  ∀ (id : Nat) (p : Seat) (ev : Event) (object : Nat), s.seat id = some p → p.stage = .recording ev object →
    s.holder object = some p.worker

theorem State.seat_of_become {u : State} {i id : Nat} {stage : Stage} {p : Seat} {ev : Event} {object : Nat}
    (seated : (u.become i stage).seat id = some p) (recording : p.stage = .recording ev object)
    (other : ∀ ev object, stage ≠ .recording ev object) : u.seat id = some p := by
  rw [seat_become] at seated
  obtain ⟨q, before, rfl⟩ := Option.map_eq_some_iff.mp seated
  by_cases here : i = id
  · simp only [here, if_true] at recording
    exact absurd recording (other ev object)
  · rwa [if_neg here]

theorem Owned.takes {o : Options} {s t : State} {label : Step} (owned : Owned s) (taken : Takes o s label t) : Owned t := by
  intro id p ev object seated recording
  have of_seat (before : s.seat id = some p) : t.holder object = some p.worker :=
    taken.holder (owned id p ev object before recording)
  cases taken with
  | @hello v row group known now found =>
    rw [State.seat_greets] at seated
    by_cases new : id = s.streams.length
    · rw [if_pos new] at seated
      cases seated
      cases recording
    · rw [if_neg new] at seated
      exact of_seat seated
  | @register i st found greeted =>
    obtain ⟨orphans, seats⟩ := s.seat_registers i st
    rw [seats] at seated
    obtain ⟨q, before, rfl⟩ := Option.map_eq_some_iff.mp seated
    by_cases here : i = id
    · simp [here] at recording
    · rw [if_neg here] at of_seat ⊢
      exact of_seat before
  | adopt => exact of_seat ((s.seat_adopts _ _ id).symm.trans (State.seat_of_become seated recording (by simp)))
  | persist now => exact of_seat (State.seat_of_become seated recording (by simp))
  | persistFails now => exact of_seat (State.seat_of_become seated recording (by simp))
  | acknowledge => exact of_seat (State.seat_of_become seated recording (by simp))
  | acknowledgeFails => exact of_seat ((s.seat_evict _ id).symm.trans (State.seat_of_become seated recording (by simp)))
  | @heartbeat i _ now => exact of_seat ((s.seat_touch i now id).symm.trans seated)
  | @taskEvent i k st a now ev' found reading known entry worker =>
    rw [State.seat_become, State.seat_touch] at seated
    obtain ⟨q, before, rfl⟩ := Option.map_eq_some_iff.mp seated
    by_cases here : i = id
    · subst here
      cases (State.seat_of_get found).symm.trans before
      simp only [if_true, Stage.recording.injEq] at recording ⊢
      obtain ⟨-, rfl⟩ := recording
      show (s.assignments[k]?).map (·.worker) = some st.worker
      rw [entry, Option.map_some, worker]
    · rw [if_neg here] at of_seat ⊢
      exact of_seat before
  | @receive i _ now => exact of_seat ((s.seat_touch i now id).symm.trans seated)
  | @record _ k st a ev now =>
    exact of_seat ((s.seat_records st.worker ev k a now id).symm.trans (State.seat_of_become seated recording (by simp)))
  | hangUp => exact of_seat (State.seat_of_become seated recording (by simp))
  | dropSession => exact of_seat ((s.seat_evict _ id).symm.trans (State.seat_of_become seated recording (by simp)))
  | goodbye => exact of_seat (State.seat_of_become seated recording (by simp))
  | write i => exact of_seat ((State.seat_onStream (f := Stream.deliver) (fun _ => rfl) id).symm.trans seated)
  | sweep now => exact of_seat ((s.seat_sweeps o now id).symm.trans seated)
  | @setDraining v draining pending =>
    have moved := (s.seat_drain v draining id).symm.trans seated
    obtain ⟨q, before, rfl⟩ := Option.map_eq_some_iff.mp moved
    have held := owned id q ev object before (by by_cases here : s.sessions v = some id <;> simpa [here] using recording)
    have kept := Takes.holder (o := o) (.setDraining pending) held
    by_cases here : s.sessions v = some id
    · rwa [if_pos here]
    · rwa [if_neg here]
  | @disconnect v _ => exact of_seat ((s.seat_disconnects v id).symm.trans seated)
  | launch => exact of_seat ((s.seat_assigns _ _ _ id).symm.trans seated)
  | forget => exact of_seat ((s.seat_untracks _ id).symm.trans seated)
  | _ => exact of_seat seated

/-! ### The counters -/

namespace State

variable {s : State} {w : WorkerID} {id : Nat} {f : Stream → Stream} {g : Nat → Nat}

/-- The counter of a stream. -/
def tally (s : State) (id : Nat) : Option Nat := (s.streams[id]?).map (·.active)

theorem tally_onStream (acts : ∀ st, (f st).active = g st.active) (other : Nat) :
    (s.onStream id f).tally other = (s.tally other).map fun n => if id = other then g n else n := by
  simp only [tally, onStream_get, Option.map_map]
  congr 1
  funext st
  by_cases here : id = other <;> simp [here, acts]

theorem tally_onCurrent (acts : ∀ st, (f st).active = g st.active) (other : Nat) :
    (s.onCurrent w f).tally other = (s.tally other).map fun n => if s.sessions w = some other then g n else n := by
  unfold onCurrent
  cases s.sessions w with
  | none => simp
  | some id =>
    rw [tally_onStream acts]
    simp

theorem tally_still (same : ∀ st, (f st).active = st.active) (other : Nat) : (s.onStream id f).tally other = s.tally other := by
  rw [tally_onStream (g := fun n => n) same]
  simp

@[simp] theorem tally_become (s : State) (id : Nat) (stage : Stage) (other : Nat) :
    (s.become id stage).tally other = s.tally other :=
  tally_still (f := ({ · with stage })) (fun _ => rfl) other

@[simp] theorem tally_evict (s : State) (id other : Nat) : (s.evict id).tally other = s.tally other := by
  obtain ⟨g, same⟩ := s.evict_get id other
  simp only [tally, same, Option.map_map]
  rfl

@[simp] theorem tally_evicts (ids : List Nat) (s : State) (other : Nat) : (ids.foldl evict s).tally other = s.tally other := by
  induction ids generalizing s with
  | nil => rfl
  | cons id rest ih => rw [List.foldl_cons, ih, tally_evict]

@[simp] theorem tally_disconnects (s : State) (w : WorkerID) (other : Nat) :
    (s.disconnects w).tally other = s.tally other := by
  obtain ⟨g, same⟩ := s.disconnects_get w other
  simp only [tally, same, Option.map_map]
  rfl

end State

/-- The counters are exact, and what was given up runs on no worker with a session. -/
structure Counted (s : State) : Prop where
  exact : ∀ w id, s.sessions w = some id → s.tally id = some (s.load w)
  lost : ∀ a ∈ s.assignments, State.Running a.worker a = true → a.lost = true → s.sessions a.worker = none

namespace Counted

variable {o : Options} {s t : State}

theorem exact_of_same (counted : Counted s) (sessions : ∀ w id, t.sessions w = some id → s.sessions w = some id)
    (tally : ∀ id n, s.tally id = some n → t.tally id = some n) (load : ∀ w, t.load w = s.load w)
    (w : WorkerID) (id : Nat) (live : t.sessions w = some id) : t.tally id = some (t.load w) := by
  rw [load]
  exact tally id _ (counted.exact w id (sessions w id live))

theorem lost_of_sub (counted : Counted s) (sessions : ∀ w id, t.sessions w = some id → s.sessions w = some id)
    (entries : ∀ a ∈ t.assignments, State.Running a.worker a = true → a.lost = true →
      ∃ b ∈ s.assignments, b.worker = a.worker ∧ State.Running b.worker b = true ∧ b.lost = true)
    (a : Assignment) (member : a ∈ t.assignments) (running : State.Running a.worker a = true) (lost : a.lost = true) :
    t.sessions a.worker = none := by
  obtain ⟨b, before, worker, running', lost'⟩ := entries a member running lost
  have gone := counted.lost b before running' lost'
  rw [worker] at gone
  cases live : t.sessions a.worker with
  | none => rfl
  | some id =>
    rw [sessions _ _ live] at gone
    cases gone

theorem unchanged (counted : Counted s) (sessions : ∀ w id, t.sessions w = some id → s.sessions w = some id)
    (tally : ∀ id n, s.tally id = some n → t.tally id = some n) (same : t.assignments = s.assignments) : Counted t where
  exact := counted.exact_of_same sessions tally fun _ => State.load_congr same
  lost := counted.lost_of_sub sessions fun a member running lost => ⟨a, same ▸ member, rfl, running, lost⟩

/-- Nothing that the counters are about has changed. -/
theorem same (counted : Counted s) (sessions : t.sessions = s.sessions) (tally : ∀ id, t.tally id = s.tally id)
    (same : t.assignments = s.assignments) : Counted t :=
  counted.unchanged (fun _ _ live => sessions ▸ live) (fun id _ counts => (tally id).trans counts) same

theorem become (counted : Counted s) (id : Nat) (stage : Stage) : Counted (s.become id stage) :=
  counted.same rfl (s.tally_become id stage) rfl

theorem evict (counted : Counted s) (id : Nat) : Counted (s.evict id) :=
  counted.unchanged (fun _ _ => State.evict_sub) (fun other _ counts => (s.tally_evict id other).trans counts)
    (s.assignments_evict id)

theorem disconnects (counted : Counted s) (w : WorkerID) : Counted (s.disconnects w) :=
  counted.unchanged (fun _ _ => State.disconnects_sub) (fun other _ counts => (s.tally_disconnects w other).trans counts)
    (s.assignments_disconnects w)

/-- A reconnect counts anew, and what runs is not given up any more. -/
theorem registers (counted : Counted s) (wired : Wired s) {id : Nat} {st : Stream} (found : s.streams[id]? = some st)
    (greeted : st.stage = .greeted) : Counted (s.registers id st) := by
  have entries : (s.registers id st).assignments =
      s.assignments.map fun a => if State.Running st.worker a then { a with lost := false } else a :=
    congrArg _ (s.assignments_disconnects st.worker)
  have load (w : WorkerID) : (s.registers id st).load w = s.load w := by
    refine State.load_map entries fun a _ => ?_
    split <;> rfl
  have sessions := wired.registers_sessions id st
  constructor
  · intro w other live
    rw [sessions] at live
    rw [load]
    have counter : (s.registers id st).tally other =
        (s.tally other).map fun n => if id = other then (s.disconnects st.worker).load st.worker else n := by
      rw [← s.tally_disconnects st.worker other]
      exact State.tally_onStream (g := fun _ => (s.disconnects st.worker).load st.worker) (fun _ => rfl) other
    rw [counter]
    by_cases here : w = st.worker
    · subst here
      simp only [Function.update_self, Option.some.injEq] at live
      subst live
      have counts : s.tally id = some st.active := by simp [State.tally, found]
      rw [counts]
      simp [State.load_congr (s.assignments_disconnects st.worker)]
    · rw [Function.update_of_ne here] at live
      have apart : id ≠ other := by
        rintro rfl
        obtain ⟨st', found', -, past⟩ := wired.held w id live
        cases found.symm.trans found'
        exact past greeted
      rw [counted.exact w other live]
      simp [apart]
  · intro a member running lost
    rw [entries] at member
    obtain ⟨b, before, rfl⟩ := List.mem_map.mp member
    rw [sessions]
    by_cases here : State.Running st.worker b = true
    · simp [here] at lost
    · simp only [if_neg here] at running lost ⊢
      have elsewhere : b.worker ≠ st.worker := by
        intro same
        rw [same] at running
        exact here running
      rw [Function.update_of_ne elsewhere]
      exact counted.lost b before running lost

/-- Two sessions of the map belong to two workers. -/
theorem apart {w v : WorkerID} {id : Nat} (wired : Wired s) (live : s.sessions w = some id) (elsewhere : w ≠ v) :
    s.sessions v ≠ some id := by
  intro same
  obtain ⟨st, found, worker, -⟩ := wired.held w id live
  obtain ⟨st', found', worker', -⟩ := wired.held v id same
  cases found.symm.trans found'
  exact elsewhere (worker.symm.trans worker')

/-- A new entry of a worker, and one more on the counter of its session. -/
theorem gains (counted : Counted s) (wired : Wired s) {w : WorkerID} {ref : Ref}
    (entries : t.assignments = s.assignments ++ [{ ref, worker := w }]) (sessions : t.sessions = s.sessions)
    (gain : ∀ other, t.tally other = (s.tally other).map fun n => if s.sessions w = some other then n + 1 else n) :
    Counted t where
  exact v id live := by
    rw [sessions] at live
    have load : t.load v = s.load v + if v = w then 1 else 0 := by
      simp only [State.load, entries, List.countP_append, List.countP_singleton, State.Running]
      by_cases here : v = w
      · simp [here]
      · simp [here, Ne.symm here]
    rw [gain, counted.exact v id live, load]
    by_cases here : v = w
    · subst here
      simp [live]
    · simp [here, apart wired live here]
  lost a member running lost := by
    rw [entries, List.mem_append, List.mem_singleton] at member
    rw [sessions]
    rcases member with old | rfl
    · exact counted.lost a old running lost
    · cases lost

theorem adopts (counted : Counted s) (wired : Wired s) (w : WorkerID) (ref : Ref) : Counted (s.adopts w ref) := by
  unfold State.adopts
  split
  · exact counted
  · refine counted.gains wired (State.assignments_onCurrent _ _ _) (State.onCurrent_sessions _ _ _) fun other => ?_
    exact State.tally_onCurrent (g := (· + 1)) (fun _ => rfl) other

/-- An entry that counts for no worker with a session leaves the map. -/
theorem untracks (counted : Counted s) {ref : Ref}
    (idle : ∀ object a w, s.lookup ref = some object → s.assignments[object]? = some a → s.sessions w ≠ none →
      State.Running w a = false) : Counted (s.untracks ref) where
  exact w id live := by
    rw [s.untracks_sessions] at live
    have tally : (s.untracks ref).tally id = s.tally id := by
      unfold State.untracks
      split <;> rfl
    rw [tally, State.load_untracks fun object a known entry => idle object a w known entry (by simp [live])]
    exact counted.exact w id live
  lost a member running lost := by
    rw [s.untracks_sessions]
    unfold State.untracks at member
    cases known : s.lookup ref with
    | none =>
      rw [known] at member
      exact counted.lost a member running lost
    | some object =>
      rw [known] at member
      obtain ⟨i, entry⟩ := List.mem_iff_getElem?.mp member
      rw [List.getElem?_modify] at entry
      obtain ⟨b, before, rfl⟩ := Option.map_eq_some_iff.mp entry
      by_cases here : object = i
      · simp [here, State.Running] at running
      · simp only [if_neg here] at running lost ⊢
        exact counted.lost b (List.mem_of_getElem? before) running lost

theorem assigns (counted : Counted s) (wired : Wired s) {group : String} {ref : Ref} {best : Nat} {st : Stream}
    (found : s.streams[best]? = some st) (least : s.LeastLoaded group best = true)
    (fresh : ∀ object a, s.lookup ref = some object → s.assignments[object]? = some a → a.lost = true ∨ a.phase = .unknown) :
    Counted (s.assigns ref best st) := by
  have live : s.sessions st.worker = some best := by
    have routable := (Bool.and_eq_true _ _ ▸ least).1
    simp only [State.Routable, found, Option.any_some, Bool.and_eq_true, beq_iff_eq] at routable
    exact routable.1.1
  have cleared : Counted (s.untracks ref) := by
    refine counted.untracks fun object a w known entry session => ?_
    by_contra running
    have running : State.Running w a = true := by simpa using running
    have worker : a.worker = w := by
      simp only [State.Running, Bool.and_eq_true, beq_iff_eq] at running
      exact running.1.2
    subst worker
    rcases fresh object a known entry with lost | unknown
    · exact session (counted.lost a (List.mem_of_getElem? entry) running lost)
    · simp [State.Running, unknown] at running
  have wired' := wired.untracks ref
  unfold State.assigns
  dsimp only
  split
  · refine cleared.gains wired' rfl rfl fun other => ?_
    refine Eq.trans (State.tally_onStream (f := Stream.accept) (g := (· + 1)) (fun _ => rfl) other) ?_
    simp [live]
  · -- the queue is full, and the entry is gone again
    constructor
    · refine cleared.exact_of_same (fun _ _ live => live) (fun _ _ counts => counts) fun w => ?_
      simp [State.load, State.Running]
    · refine cleared.lost_of_sub (fun _ _ live => live) fun a member running lost => ?_
      rw [List.mem_append, List.mem_singleton] at member
      rcases member with old | rfl
      · exact ⟨a, old, rfl, running, lost⟩
      · cases lost

/-- Only entries that do not run are dropped. -/
theorem sweeps (counted : Counted s) (now : Time) : Counted (s.sweeps o now) := by
  have entries : (s.sweeps o now).assignments = s.assignments.map fun a =>
      if a.phase ≠ .running ∧ a.doneAt.any (fun done => decide (now - done > refGrace)) then { a with tracked := false } else a :=
    congrArg _ (s.assignments_evicts _)
  constructor
  · refine counted.exact_of_same (fun _ _ => State.evicts_sub) (fun other _ counts => (State.tally_evicts _ s other).trans counts) fun w => ?_
    refine State.load_map entries fun a _ => ?_
    split
    next ended => simp [State.Running, ended.1]
    next => rfl
  · refine counted.lost_of_sub (fun _ _ => State.evicts_sub) fun a member running lost => ?_
    rw [entries] at member
    obtain ⟨b, before, rfl⟩ := List.mem_map.mp member
    by_cases ended : b.phase ≠ .running ∧ b.doneAt.any (fun done => decide (now - done > refGrace))
    · simp [if_pos ended, State.Running] at running
    · simp only [if_neg ended] at running lost ⊢
      exact ⟨b, before, rfl, running, lost⟩

theorem marksLost (counted : Counted s) (stale silent : List WorkerID) : Counted (s.marksLost stale silent) := by
  constructor
  · refine counted.exact_of_same (fun _ _ live => live) (fun _ _ counts => counts) fun w => ?_
    refine State.load_map rfl fun a _ => ?_
    split <;> rfl
  · intro a member running lost
    obtain ⟨b, before, rfl⟩ := List.mem_map.mp member
    by_cases abandoned : s.Abandoned silent b = true
    · simp only [if_pos abandoned]
      simp only [State.Abandoned, Bool.and_eq_true, Option.isNone_iff_eq_none] at abandoned
      exact abandoned.2
    · simp only [if_neg abandoned] at running lost ⊢
      exact counted.lost b before running lost

theorem running_elsewhere {w : WorkerID} {a : Assignment} (elsewhere : w ≠ a.worker) : State.Running w a = false := by
  simp [State.Running, Ne.symm elsewhere]

theorem records (counted : Counted s) (wired : Wired s) {ev : Event} {object : Nat} {a : Assignment}
    (entry : s.assignments[object]? = some a)
    (accounted : s.sessions a.worker ≠ none → Accounted a ev.launchError ev.phase) (now : Time) :
    Counted (s.records a.worker ev object a now) := by
  have entries : (s.records a.worker ev object a now).assignments = s.assignments.modify object (·.record ev now) := by
    unfold State.records
    split <;> simp
  have sessions := s.records_sessions a.worker ev object a now
  have tally (other : Nat) : (s.records a.worker ev object a now).tally other = (s.tally other).map fun n =>
      if a.released ev = true ∧ s.sessions a.worker = some other then n - 1 else n := by
    unfold State.records
    split
    next released =>
      simp only [released, true_and]
      exact State.tally_onCurrent (g := (· - 1)) (fun _ => rfl) other
    next kept =>
      simp only [kept, Bool.false_eq_true, false_and, if_false, Option.map_id']
      rfl
  constructor
  · intro w id live
    rw [sessions] at live
    have change := countP_modify (State.Running w) (·.record ev now) entry
    have load : (s.records a.worker ev object a now).load w = (s.assignments.modify object (·.record ev now)).countP (State.Running w) := by
      rw [State.load, entries]
    rw [tally, counted.exact w id live, load]
    by_cases here : w = a.worker
    · subst here
      have balance := (accounted (by simp [live])).balance now
      simp only [live, and_true, Option.map_some, Option.some.injEq]
      show (if a.released ev = true then s.load a.worker - 1 else s.load a.worker) = _
      unfold State.load
      split at balance
      next released =>
        simp only [balance, if_true] at change
        rw [if_pos released]
        simp only [Bool.false_eq_true, if_false] at change
        omega
      next kept =>
        rw [balance] at change
        rw [if_neg kept]
        omega
    · have before := running_elsewhere here
      have after : State.Running w (a.record ev now) = false := by
        apply running_elsewhere
        rwa [a.record_worker]
      rw [before, after] at change
      simp only [apart wired live here, and_false, if_false, Option.map_some, Option.some.injEq]
      simpa [State.load] using change.symm
  · intro b member running lost
    rw [sessions]
    rw [entries] at member
    obtain ⟨i, found⟩ := List.mem_iff_getElem?.mp member
    rw [List.getElem?_modify] at found
    obtain ⟨c, before, rfl⟩ := Option.map_eq_some_iff.mp found
    by_cases here : object = i
    · subst here
      cases entry.symm.trans before
      simp only [if_true, a.record_worker, a.record_lost] at running lost ⊢
      by_contra session
      have balance := (accounted session).balance now
      split at balance
      · rw [balance.2] at running
        cases running
      · rw [balance] at running
        exact session (counted.lost a (List.mem_of_getElem? entry) running lost)
    · simp only [if_neg here] at running lost ⊢
      exact counted.lost c (List.mem_of_getElem? before) running lost

theorem boot (table : List (WorkerID × Row)) : Counted (boot table) where
  exact w id live := by cases live
  lost a member := by cases member

theorem takes {label : Step} (counted : Counted s) (wired : Wired s) (owned : Owned s) (tallied : Tallied s label)
    (taken : Takes o s label t) : Counted t := by
  cases taken with
  | hello group known now found =>
    refine counted.unchanged (fun _ _ live => live) (fun id n counts => ?_) rfl
    obtain ⟨st, found', rfl⟩ := Option.map_eq_some_iff.mp counts
    simp only [State.tally, State.greets, List.getElem?_append_left (List.getElem?_eq_some_iff.mp found').1, found', Option.map_some]
  | register found greeted => exact counted.registers wired found greeted
  | adopt found registered => exact (counted.adopts wired _ _).become _ _
  | @persist id st now found registered =>
    have written : Counted (s.upserts st.worker st.row now) := counted.same rfl (fun _ => rfl) rfl
    exact written.become _ _
  | persistFails => exact counted.become _ _
  | acknowledge => exact counted.become _ _
  | acknowledgeFails => exact (counted.evict _).become _ _
  | @heartbeat id st now found reading => exact counted.same rfl (State.tally_still (f := Stream.touch now) fun _ => rfl) rfl
  | @taskEvent id _ _ _ now ev found reading known entry worker =>
    have touched : Counted (s.onStream id (Stream.touch now)) :=
      counted.same rfl (State.tally_still (f := Stream.touch now) fun _ => rfl) rfl
    exact touched.become _ _
  | @receive id st now m found reading => exact counted.same rfl (State.tally_still (f := Stream.touch now) fun _ => rfl) rfl
  | @record id object st a ev now found recording entry =>
    have worker : a.worker = st.worker := by
      have held := owned id st.seat ev object (State.seat_of_get found) recording
      simpa [State.holder, entry, Stream.seat] using held
    have accounted : s.sessions a.worker ≠ none → Accounted a ev.launchError ev.phase := by
      have asked := tallied st found
      rw [recording] at asked
      rw [worker]
      exact asked a entry
    have recorded := counted.records wired entry accounted now
    rw [worker] at recorded
    exact recorded.become _ _
  | hangUp => exact counted.become _ _
  | dropSession => exact (counted.evict _).become _ _
  | @goodbye id st found dropped =>
    have written : Counted (s.updates st.worker .offline none) := counted.same rfl (fun _ => rfl) rfl
    exact written.become _ _
  | write => exact counted.same rfl (State.tally_still (f := Stream.deliver) fun _ => rfl) rfl
  | sweep now => exact counted.sweeps now
  | markLost => exact counted.marksLost _ _
  | @setDraining v draining pending =>
    refine counted.same (s.onCurrent_sessions v _) (fun id => ?_) (s.assignments_onCurrent v _)
    refine Eq.trans (State.tally_onCurrent (f := Stream.drain draining) (g := fun n => n) (fun _ => rfl) id) ?_
    simp
  | @disconnect v pending => exact (counted.disconnects v).same rfl (fun _ => rfl) rfl
  | launch found least fresh => exact counted.assigns wired found least fresh
  | @forget ref object a known entry ended =>
    refine counted.untracks fun object' a' w known' entry' _ => ?_
    cases known.symm.trans known'
    cases entry.symm.trans entry'
    simp [State.Running, ended]
  | _ => exact counted.same rfl (fun _ => rfl) rfl

end Counted

structure Ledger (s : State) : Prop where
  wired : Wired s
  owned : Owned s
  counted : Counted s

theorem Ledger.boot (table : List (WorkerID × Row)) : Ledger (boot table) where
  wired := Wired.boot table
  owned id p ev object seated := by simp [State.seat, Hub.boot] at seated
  counted := Counted.boot table

theorem Ledger.takes {o : Options} {s t : State} {label : Step} (ledger : Ledger s) (tallied : Tallied s label)
    (taken : Takes o s label t) : Ledger t where
  wired := ledger.wired.takes taken
  owned := ledger.owned.takes taken
  counted := ledger.counted.takes ledger.wired ledger.owned tallied taken

/-- Where every event is one that the counter follows, the counters of the live sessions are the
true loads. -/
theorem balanced_of_tallied {o : Options} {table : List (WorkerID × Row)} {s : State}
    (reached : Reach (step o) Tallied (boot table) s) : Balanced s := by
  have ledger : Ledger s :=
    reached.invariant (Ledger.boot table) fun _ _ _ ledger tallied stepped => ledger.takes tallied (step_takes stepped)
  intro w id st live found
  have counts := ledger.counted.exact w id live
  rw [State.tally, found, Option.map_some, Option.some.injEq] at counts
  exact counts

/-- A worker with one attempt, of which it reports the event. -/
def reporting (ev : Event) : List Step :=
  [.hello "wk_1" "default" [] 0, .register 0, .persist 0 0 true, .acknowledge 0 true, .launch "default" "etl__1/load/1" 0,
    .launch "default" "etl__1/clean/1" 0, .receive 0 1 (.taskEvent ev), .record 0 1]

theorem balanced_of_tallied_exit :
    ∃ s, runSteps (step {}) (boot [("wk_1", {})]) (reporting { ref := "etl__1/load/1", phase := .exited 0 }) = some s ∧
      s.load "wk_1" = 1 ∧ Balanced s := by
  have ran : (runSteps (step {}) (boot [("wk_1", {})]) (reporting { ref := "etl__1/load/1", phase := .exited 0 })).any
      (fun s => s.load "wk_1" == 1) = true := by
    decide +kernel
  obtain ⟨s, ran, load⟩ := (Option.any_eq_true _ _).mp ran
  have tallied : EachStep (step {}) Tallied (boot [("wk_1", {})]) (reporting { ref := "etl__1/load/1", phase := .exited 0 }) := by
    decide +kernel
  exact ⟨s, ran, by simpa using load, balanced_of_tallied (tallied.reach ran)⟩

/-- An attempt that the worker has no record of leaves the running phase and not the counter. -/
theorem unknown_not_balanced :
    ∃ s, runSteps (step {}) (boot [("wk_1", {})]) (reporting { ref := "etl__1/load/1", phase := .unknown }) = some s ∧
      s.load "wk_1" = 1 ∧ (s.current "wk_1").map (·.active) = some 2 ∧ ¬Balanced s := by
  have ran : (runSteps (step {}) (boot [("wk_1", {})]) (reporting { ref := "etl__1/load/1", phase := .unknown })).any
      (fun s => s.load "wk_1" == 1 && s.sessions "wk_1" == some 0 && (s.current "wk_1").map (·.active) == some 2) = true := by
    decide +kernel
  obtain ⟨s, ran, facts⟩ := (Option.any_eq_true _ _).mp ran
  simp only [Bool.and_eq_true, beq_iff_eq] at facts
  obtain ⟨⟨load, live⟩, active⟩ := facts
  refine ⟨s, ran, load, active, fun balanced => ?_⟩
  simp only [State.current, live, Option.bind_some] at active
  obtain ⟨st, found, counts⟩ := Option.map_eq_some_iff.mp active
  have same := balanced "wk_1" 0 st live found
  rw [counts, load] at same
  cases same

end Cronova.Worker.Hub
