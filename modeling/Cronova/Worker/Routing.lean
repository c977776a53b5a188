import Cronova.Worker.Hub

/-! Whether a worker that is served can be given work (`internal/workerhub/hub.go`).

The reader loop of a stream lives on outside the mutex, whatever becomes of its session. The loop of
a worker's newest stream is meant to run with the session in the map: `groupExec.Launch` sees the
map only.
-/

set_option autoImplicit false

namespace Cronova.Worker.Hub

open Calendar (Time)
open Process

namespace Stage

/-- The reader loop runs. -/
def read : Stage → Bool
  | .reading | .recording _ _ => true
  | _ => false

/-- From the registration to the end of the reader loop. -/
def serving : Stage → Bool
  | .registered _ | .persisted | .reading | .recording _ _ => true
  | _ => false

theorem serving_of_read {stage : Stage} (read : stage.read = true) : stage.serving = true := by
  cases stage <;> simp_all [Stage.read, serving]

end Stage

/-- The stream is the last one whose hello the worker has sent. -/
structure Newest (s : State) (w : WorkerID) (id : Nat) : Prop where
  own : (s.seat id).map (·.worker) = some w
  last : ∀ other, (s.seat other).map (·.worker) = some w → other ≤ id

/-- The map has the newest stream of a worker whenever that is being read. -/
def Served (s : State) : Prop :=
  ∀ (id : Nat) (p : Seat), s.seat id = some p → p.stage.read = true → Newest s p.worker id →
    s.removed p.worker = false → s.sessions p.worker = some id

/-- The stream that the map should have for a worker. -/
structure Due (s : State) (w : WorkerID) (id : Nat) : Prop where
  serving : (s.seat id).any (·.stage.serving) = true
  newest : Newest s w id
  kept : s.removed w = false

/-- Where the map and the streams stay together: a sweep gives up no session whose stream is due,
and a hello takes the map only from streams that are not. -/
def Steady (o : Options) (s : State) : Step → Prop
  | .sweep now => ∀ id ∈ s.staleSessions o now, ∀ w, ¬Due s w id
  | .register id => ∀ w, (s.seat id).map (·.worker) = some w → ∀ other, ¬Due s w other
  | _ => True

theorem Newest.iff_bounded {s : State} {w : WorkerID} {id : Nat} :
    Newest s w id ↔ (s.seat id).map (·.worker) = some w ∧
      ∀ other < s.streams.length, (s.seat other).map (·.worker) = some w → other ≤ id := by
  constructor
  · intro newest
    exact ⟨newest.own, fun other _ => newest.last other⟩
  · rintro ⟨own, last⟩
    refine ⟨own, fun other seated => last other ?_ seated⟩
    by_contra past
    have absent : s.streams[other]? = none := List.getElem?_eq_none (Nat.le_of_not_lt past)
    simp [State.seat, absent] at seated

instance (s : State) (w : WorkerID) (id : Nat) : Decidable (Newest s w id) := decidable_of_iff _ Newest.iff_bounded.symm

instance (s : State) (w : WorkerID) (id : Nat) : Decidable (Due s w id) :=
  decidable_of_iff ((s.seat id).any (·.stage.serving) = true ∧ Newest s w id ∧ s.removed w = false)
    ⟨fun h => ⟨h.1, h.2.1, h.2.2⟩, fun h => ⟨h.serving, h.newest, h.kept⟩⟩

/-- Only the worker of a stream can have it due. -/
theorem Due.seated {s : State} {w : WorkerID} {id : Nat} (due : Due s w id) : ∃ p, s.seat id = some p ∧ p.worker = w :=
  Option.map_eq_some_iff.mp due.newest.own

theorem Due.lt {s : State} {w : WorkerID} {id : Nat} (due : Due s w id) : id < s.streams.length := by
  obtain ⟨p, seated, -⟩ := due.seated
  obtain ⟨st, found, -⟩ := Option.map_eq_some_iff.mp seated
  exact (List.getElem?_eq_some_iff.mp found).1

def Steady.decide (o : Options) (s : State) : ∀ label, Decidable (Steady o s label)
  | .sweep now =>
    decidable_of_iff (∀ id ∈ s.staleSessions o now, ∀ w ∈ (s.seat id).map Seat.worker, ¬Due s w id) (by
      constructor
      · intro none id stale w due
        exact none id stale w due.newest.own due
      · intro none id stale w _
        exact none id stale w)
  | .register id =>
    decidable_of_iff (∀ w ∈ (s.seat id).map Seat.worker, ∀ other < s.streams.length, ¬Due s w other) (by
      constructor
      · intro none w own other due
        exact none w own other due.lt due
      · intro none w own other _
        exact none w own other)
  | .enroll _ | .hello _ _ _ _ | .adopt _ | .persist _ _ _ | .acknowledge _ _ | .receive _ _ _ | .record _ _ | .hangUp _
  | .dropSession _ | .goodbye _ | .write _ | .inspect _ _ | .markLost | .setWorkerDraining _ _ | .setDraining _ _
  | .deleteWorker _ | .disconnect _ | .launch _ _ _ | .forget _ => .isTrue trivial

instance (o : Options) (s : State) (label : Step) : Decidable (Steady o s label) := Steady.decide o s label

/-- The invariant of steady runs. -/
structure Kept (s : State) : Prop where
  wired : Wired s
  due : ∀ w id, Due s w id → s.sessions w = some id
  removals : ∀ w ∈ s.removals, s.removed w = true

theorem Newest.unique {s : State} {w : WorkerID} {id other : Nat} (left : Newest s w id) (right : Newest s w other) :
    id = other :=
  Nat.le_antisymm (right.last id left.own) (left.last other right.own)

theorem Newest.of_workers {s t : State} (same : ∀ id, (t.seat id).map (·.worker) = (s.seat id).map (·.worker))
    {w : WorkerID} {id : Nat} (newest : Newest t w id) : Newest s w id where
  own := same id ▸ newest.own
  last other own := newest.last other ((same other).trans own)

/-- No stream comes to be due where streams only leave the service. -/
theorem Due.of_seats {s t : State} {w : WorkerID} {id : Nat} (due : Due t w id)
    (workers : ∀ id, (t.seat id).map (·.worker) = (s.seat id).map (·.worker))
    (onward : (t.seat id).any (·.stage.serving) = true → (s.seat id).any (·.stage.serving) = true)
    (desk : t.desk.removed = s.desk.removed) : Due s w id where
  serving := onward due.serving
  newest := due.newest.of_workers workers
  kept := (congrFun desk w).symm.trans due.kept

theorem Due.of_same {s t : State} {w : WorkerID} {id : Nat} (due : Due t w id) (same : ∀ id, t.seat id = s.seat id)
    (desk : t.desk.removed = s.desk.removed) : Due s w id :=
  due.of_seats (fun id => by rw [same]) (fun serving => same id ▸ serving) desk

theorem Due.of_become {s u : State} {id other : Nat} {p : Seat} {stage : Stage} {w : WorkerID}
    (due : Due (u.become id stage) w other) (seated : s.seat id = some p) (same : ∀ other, u.seat other = s.seat other)
    (desk : u.desk.removed = s.desk.removed) (onward : stage.serving = true → p.stage.serving = true) : Due s w other := by
  refine due.of_seats (fun k => ?_) (fun serving => ?_) desk
  · rw [State.seat_become, same, Option.map_map]
    congr 1
    funext p
    by_cases here : id = k <;> simp [here]
  · rw [State.seat_become, same] at serving
    by_cases here : id = other
    · subst here
      simp only [seated, Option.map_some, if_true, Option.any_some] at serving ⊢
      exact onward serving
    · simpa [here] using serving

namespace State

/-- An eviction leaves the other sessions alone. -/
theorem evict_keeps {s : State} {w : WorkerID} {id other : Nat} (live : s.sessions w = some other) (apart : id ≠ other) :
    (s.evict id).sessions w = some other := by
  cases found : s.streams[id]? with
  | none => rwa [evict_absent found]
  | some st =>
    by_cases held : s.sessions st.worker = some id
    · rw [evict_live found held]
      have elsewhere : w ≠ st.worker := by
        rintro rfl
        exact apart (Option.some.inj (held.symm.trans live))
      simpa [Function.update_of_ne elsewhere] using live
    · rwa [evict_dead found held]

theorem evicts_keeps {w : WorkerID} {other : Nat} (ids : List Nat) {s : State} (live : s.sessions w = some other)
    (apart : other ∉ ids) : (ids.foldl evict s).sessions w = some other := by
  induction ids generalizing s with
  | nil => exact live
  | cons id rest ih =>
    rw [List.mem_cons, not_or] at apart
    exact ih (evict_keeps live fun same => apart.1 same.symm) apart.2

end State

/-! ### Steady runs -/

theorem Due.before {o : Options} {s t : State} {label : Step} (taken : Takes o s label t)
    (still : ∀ id, label ≠ .register id) {w : WorkerID} {id : Nat} (due : Due t w id) : Due s w id := by
  cases taken with
  | register found greeted => exact absurd rfl (still _)
  | @hello v row group known now found =>
    have seats := s.seat_greets v group known row now
    -- the new stream is not served yet, and the old ones have a newer one now
    have old : id ≠ s.streams.length := by
      rintro rfl
      simpa [seats, Stage.serving] using due.serving
    refine ⟨by simpa [seats, old] using due.serving, ⟨by simpa [seats, old] using due.newest.own, fun other own => ?_⟩, due.kept⟩
    have absent : s.seat s.streams.length = none := by simp [State.seat]
    have older : other ≠ s.streams.length := by
      rintro rfl
      simp [absent] at own
    exact due.newest.last other (by simpa [seats, older] using own)
  | @deleteWorker v row found =>
    refine ⟨due.serving, ⟨due.newest.own, due.newest.last⟩, ?_⟩
    have kept := due.kept
    by_cases here : w = v
    · simp [here] at kept
    · simpa [here] using kept
  | adopt found registered =>
    refine due.of_become (State.seat_of_get found) (State.seat_adopts s _ _) (by simp) ?_
    simp [Stream.seat, registered, Stage.serving]
  | persist now found registered =>
    refine due.of_become (State.seat_of_get found) (fun _ => rfl) rfl ?_
    simp [Stream.seat, registered, Stage.serving]
  | persistFails now found registered =>
    refine due.of_become (State.seat_of_get found) (fun _ => rfl) rfl ?_
    simp [Stream.seat, registered, Stage.serving]
  | acknowledge found persisted =>
    refine due.of_become (State.seat_of_get found) (fun _ => rfl) rfl ?_
    simp [Stream.seat, persisted, Stage.serving]
  | acknowledgeFails found persisted =>
    refine due.of_become (State.seat_of_get found) (State.seat_evict s _) (by simp) ?_
    simp [Stage.serving]
  | taskEvent now ev found reading known entry worker =>
    refine due.of_become (State.seat_of_get found) (State.seat_touch s _ now) rfl ?_
    simp [Stream.seat, reading, Stage.serving]
  | record now found recording entry =>
    refine due.of_become (State.seat_of_get found) (State.seat_records s _ _ _ _ now) (by simp) ?_
    simp [Stream.seat, recording, Stage.serving]
  | hangUp found reading =>
    refine due.of_become (State.seat_of_get found) (fun _ => rfl) rfl ?_
    simp [Stage.serving]
  | dropSession found leaving =>
    refine due.of_become (State.seat_of_get found) (State.seat_evict s _) (by simp) ?_
    simp [Stage.serving]
  | goodbye found dropped =>
    refine due.of_become (State.seat_of_get found) (fun _ => rfl) rfl ?_
    simp [Stage.serving]
  | heartbeat now => exact due.of_same (State.seat_touch s _ now) rfl
  | receive now => exact due.of_same (State.seat_touch s _ now) rfl
  | write => exact due.of_same (State.seat_onStream fun _ => rfl) rfl
  | sweep now => exact due.of_same (State.seat_sweeps s o now) (by simp)
  | @setDraining v draining pending =>
    have desk : (s.onCurrent v (Stream.drain draining)).removed = s.removed :=
      congrArg State.Desk.removed (s.desk_onCurrent v _)
    refine due.of_seats (fun other => ?_) (fun serving => ?_) desk
    · refine (congrArg _ (s.seat_drain v draining other)).trans ?_
      rw [Option.map_map]
      congr 1
      funext p
      by_cases here : s.sessions v = some other <;> simp [here]
    · have moved : (s.onCurrent v (Stream.drain draining)).seat id = _ := s.seat_drain v draining id
      have serving : ((s.onCurrent v (Stream.drain draining)).seat id).any (·.stage.serving) = true := serving
      rw [moved] at serving
      cases seated : s.seat id with
      | none => simp [seated] at serving
      | some p => by_cases here : s.sessions v = some id <;> simpa [seated, here] using serving
  | @disconnect v pending =>
    have desk : (s.disconnects v).removed = s.removed := congrArg State.Desk.removed (s.desk_disconnects v)
    exact due.of_same (s.seat_disconnects v) desk
  | launch => exact due.of_same (State.seat_assigns s _ _ _) (by simp)
  | forget => exact due.of_same (State.seat_untracks s _) (by simp)
  | _ => exact due.of_same (fun _ => rfl) rfl

theorem Kept.boot (table : List (WorkerID × Row)) : Kept (boot table) where
  wired := Wired.boot table
  due w id due := by simpa [State.seat, Hub.boot] using due.serving
  removals w pending := by cases pending

theorem Kept.due_rewired {o : Options} {s t : State} {label : Step} (kept : Kept s) (steady : Steady o s label)
    (taken : Takes o s label t) (rewires : label.rewires = true) {w : WorkerID} {id : Nat} (due : Due t w id) :
    t.sessions w = some id := by
  cases taken with
  | @register new st found greeted =>
    obtain ⟨orphans, seats⟩ := s.seat_registers new st
    rw [kept.wired.registers_sessions]
    have workers (other : Nat) : ((s.registers new st).seat other).map (·.worker) = (s.seat other).map (·.worker) := by
      rw [seats, Option.map_map]
      congr 1
      funext p
      by_cases here : new = other <;> simp [here]
    by_cases here : new = id
    · subst here
      have own := due.newest.own
      simp only [workers, State.seat_of_get found, Option.map_some] at own
      cases own
      simp [Stream.seat]
    · have before : Due s w id := by
        refine due.of_seats workers (fun serving => ?_) (congrArg State.Desk.removed (s.desk_registers new st))
        simpa [seats, here] using serving
      have elsewhere : w ≠ st.worker := by
        rintro rfl
        exact steady st.worker (by simp [State.seat_of_get found, Stream.seat]) id before
      rw [Function.update_of_ne elsewhere]
      exact kept.due w id before
  | @acknowledgeFails old st found persisted =>
    have live := kept.due w id (due.before (o := o) (.acknowledgeFails found persisted) (by simp))
    apply State.evict_keeps live
    rintro rfl
    simpa [State.seat_become, State.seat_of_get found, Stage.serving] using due.serving
  | @dropSession old st found leaving =>
    have live := kept.due w id (due.before (o := o) (.dropSession found leaving) (by simp))
    apply State.evict_keeps live
    rintro rfl
    simpa [State.seat_become, State.seat_of_get found, Stage.serving] using due.serving
  | sweep now idle =>
    have before := due.before (o := o) (.sweep now idle) (by simp)
    exact State.evicts_keeps _ (kept.due w id before) fun stale => steady id stale w before
  | @disconnect v pending =>
    have before := due.before (o := o) (.disconnect pending) (by simp)
    have elsewhere : w ≠ v := by
      rintro rfl
      have here := before.kept
      simp [kept.removals w pending] at here
    have gone : (s.disconnects v).sessions w = s.sessions w := by
      rw [kept.wired.disconnects_sessions, Function.update_of_ne elsewhere]
    exact gone.trans (kept.due w id before)
  | _ => cases rewires

/-- A call of `removeWorker` that has to tell the hub has removed its worker. -/
theorem Kept.removals_takes {o : Options} {s t : State} {label : Step} (kept : Kept s) (taken : Takes o s label t)
    {w : WorkerID} (pending : w ∈ t.removals) : t.removed w = true := by
  have of_desk (desk : t.desk = s.desk) : t.removed w = true := by
    have same : t.removals = s.removals := congrArg State.Desk.removals desk
    have removed : t.removed = s.removed := congrArg State.Desk.removed desk
    rw [removed]
    exact kept.removals w (same ▸ pending)
  cases still : label.clerical with
  | false => exact of_desk (taken.desk still)
  | true =>
    cases taken with
    | @deleteWorker v row found =>
      by_cases here : w = v
      · simp [here]
      · have already : w ∈ s.removals := by simpa [here] using pending
        simpa [here] using kept.removals w already
    | @disconnect v _ =>
      have removed : (s.disconnects v).removed = s.removed := congrArg State.Desk.removed (s.desk_disconnects v)
      have already : w ∈ s.removals := List.mem_of_mem_erase pending
      exact (congrFun removed w).trans (kept.removals w already)
    | @setDraining v draining _ =>
      have desk := s.desk_onCurrent v (Stream.drain draining)
      have same : (s.onCurrent v (Stream.drain draining)).removals = s.removals := congrArg State.Desk.removals desk
      have removed : (s.onCurrent v (Stream.drain draining)).removed = s.removed := congrArg State.Desk.removed desk
      exact (congrFun removed w).trans (kept.removals w (same ▸ pending))
    | enroll | persist | heartbeat | receive | goodbye | markLost | setWorkerDraining => exact kept.removals w pending
    | _ => cases still

theorem Kept.takes {o : Options} {s t : State} {label : Step} (kept : Kept s) (steady : Steady o s label)
    (taken : Takes o s label t) : Kept t where
  wired := kept.wired.takes taken
  due w id due := by
    cases rewires : label.rewires with
    | true => exact kept.due_rewired steady taken rewires due
    | false =>
      have before : Due s w id := by
        apply due.before taken
        rintro new rfl
        cases rewires
      rw [taken.sessions rewires]
      exact kept.due w id before
  removals _ pending := kept.removals_takes taken pending

/-- In a steady run the newest stream of a worker is in the map for as long as it is read. -/
theorem served_of_steady {o : Options} {table : List (WorkerID × Row)} {s : State}
    (reached : Reach (step o) (Steady o) (boot table) s) : Served s := by
  have kept : Kept s :=
    reached.invariant (Kept.boot table) fun _ _ _ kept steady stepped => kept.takes steady (step_takes stepped)
  intro id p seated read newest removed
  apply kept.due p.worker id
  refine ⟨?_, newest, removed⟩
  rw [seated, Option.any_some]
  exact Stage.serving_of_read read

/-- Sweeps that find nothing, and a reconnect that replaces a stream. -/
def undisturbed : List Step :=
  [.hello "wk_1" "default" [] 0, .register 0, .persist 0 0 true, .acknowledge 0 true, .receive 0 5 .heartbeat, .sweep 9,
    .markLost, .hello "wk_1" "default" [] 10, .register 1, .persist 1 10 true, .acknowledge 1 true, .hangUp 0, .dropSession 0]

theorem served_of_steady_undisturbed :
    ∃ s, runSteps (step {}) (boot [("wk_1", {})]) undisturbed = some s ∧ (s.seat 1).any (·.stage.read) = true ∧ Served s := by
  have ran : (runSteps (step {}) (boot [("wk_1", {})]) undisturbed).any (fun s => (s.seat 1).any (·.stage.read)) = true := by
    decide +kernel
  obtain ⟨s, ran, read⟩ := (Option.any_eq_true _ _).mp ran
  have steady : EachStep (step {}) (Steady {}) (boot [("wk_1", {})]) undisturbed := by decide +kernel
  exact ⟨s, ran, read, served_of_steady (steady.reach ran)⟩

/-- A stream that is silent for longer than `lostAfter` and then comes back to life. -/
def silenced : List Step :=
  [.hello "wk_1" "default" [] 0, .register 0, .persist 0 0 true, .acknowledge 0 true, .sweep (16 * Calendar.second),
    .markLost, .receive 0 (20 * Calendar.second) .heartbeat]

/-- The sweep ends the session and not the stream: the heartbeats show the worker online, and no
work reaches it. -/
theorem silenced_not_served :
    ∃ s, runSteps (step {}) (boot [("wk_1", {})]) silenced = some s ∧
      (s.rows "wk_1").map (·.state) = some .online ∧ s.sessions "wk_1" = none ∧ ¬Served s := by
  have ran : (runSteps (step {}) (boot [("wk_1", {})]) silenced).any (fun s =>
      (s.rows "wk_1").map (·.state) == some .online && s.sessions "wk_1" == none && s.seat 0 == some ⟨"wk_1", .reading, false⟩ &&
      decide (Newest s "wk_1" 0) && !s.removed "wk_1") = true := by
    decide +kernel
  obtain ⟨s, ran, facts⟩ := (Option.any_eq_true _ _).mp ran
  simp only [Bool.and_eq_true, beq_iff_eq, decide_eq_true_eq, Bool.not_eq_true'] at facts
  obtain ⟨⟨⟨⟨online, gone⟩, seated⟩, newest⟩, kept⟩ := facts
  refine ⟨s, ran, online, gone, fun served => ?_⟩
  have live := served 0 _ seated rfl newest kept
  rw [gone] at live
  cases live

end Cronova.Worker.Hub
