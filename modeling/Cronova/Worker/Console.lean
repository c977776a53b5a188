import Cronova.Worker.Hub

/-! The calls of the console against a hello of the same worker (`internal/api/workers.go`,
`internal/workerhub/hub.go`).

`drainWorker` and `removeWorker` write the row first and tell the hub afterwards. `Session` reads
the row first, registers the session with what it has read, and writes the row back. The row and the
session agree in the end where these do not fall between each other.
-/

set_option autoImplicit false

namespace Cronova.Worker.Hub

open Calendar (Time)
open Process

namespace Stage

/-- The hello has not written the row back. -/
def early : Stage → Bool
  | .greeted | .registered _ => true
  | _ => false

end Stage

theorem State.forall_seat {s : State} {P : Nat → Seat → Prop} :
    (∀ id < s.streams.length, ∀ p ∈ s.seat id, P id p) ↔ ∀ id p, s.seat id = some p → P id p := by
  constructor
  · intro all id p seated
    obtain ⟨st, found, -⟩ := Option.map_eq_some_iff.mp seated
    exact all id (List.getElem?_eq_some_iff.mp found).1 p seated
  · intro all id _ p seated
    exact all id p seated

/-- The stored flag of a worker. -/
def State.flag (s : State) (w : WorkerID) : Option Bool := (s.rows w).map (·.draining)

/-- A call of `drainWorker` still has to tell the hub. -/
def Draining (drains : List (WorkerID × Bool)) (w : WorkerID) : Prop := ∃ draining, (w, draining) ∈ drains

instance (drains : List (WorkerID × Bool)) (w : WorkerID) : Decidable (Draining drains w) :=
  decidable_of_iff (∃ pending ∈ drains, pending.1 = w) (by simp [Draining])

/-- Every call and every hello of the worker has completed. -/
structure Quiet (s : State) (w : WorkerID) : Prop where
  drains : ¬Draining s.drains w
  removals : w ∉ s.removals
  hellos : ∀ id p, s.seat id = some p → p.worker = w → p.stage.early = false

instance (s : State) (w : WorkerID) : Decidable (Quiet s w) :=
  decidable_of_iff (¬Draining s.drains w ∧ w ∉ s.removals ∧
      ∀ id < s.streams.length, ∀ p ∈ s.seat id, p.worker = w → p.stage.early = false)
    ⟨fun h => ⟨h.1, h.2.1, State.forall_seat.mp h.2.2⟩, fun h => ⟨h.drains, h.removals, State.forall_seat.mpr h.hellos⟩⟩

/-- What the console shows of a worker is what the hub does. -/
structure Coherent (s : State) (w : WorkerID) : Prop where
  draining : ∀ id p, s.sessions w = some id → s.seat id = some p → s.flag w = some p.draining
  removed : s.removed w = true → s.rows w = none ∧ s.sessions w = none

/-- Where the calls of the console and the hellos keep apart. The last of the pending drains that
tells the hub is the one that wrote the row last, and finds no hello that has read another flag and
is not registered; a worker is removed while none of its hellos has to write the row back. -/
def Apart (s : State) : Step → Prop
  | .setDraining w draining => Draining (s.drains.erase (w, draining)) w ∨
      s.flag w ∈ [none, some draining] ∧
      ∀ id p, s.seat id = some p → p.worker = w → p.stage = .greeted → p.draining = draining
  | .deleteWorker w => ∀ id p, s.seat id = some p → p.worker = w → p.stage.early = false
  | _ => True

def Apart.decide (s : State) : ∀ label, Decidable (Apart s label)
  | .setDraining w draining =>
    decidable_of_iff (Draining (s.drains.erase (w, draining)) w ∨ s.flag w ∈ [none, some draining] ∧
        ∀ id < s.streams.length, ∀ p ∈ s.seat id, p.worker = w → p.stage = .greeted → p.draining = draining)
      (or_congr_right (and_congr_right' State.forall_seat))
  | .deleteWorker w =>
    decidable_of_iff (∀ id < s.streams.length, ∀ p ∈ s.seat id, p.worker = w → p.stage.early = false) State.forall_seat
  | .enroll _ | .hello _ _ _ _ | .register _ | .adopt _ | .persist _ _ _ | .acknowledge _ _ | .receive _ _ _ | .record _ _
  | .hangUp _ | .dropSession _ | .goodbye _ | .write _ | .sweep _ | .inspect _ _ | .markLost | .setWorkerDraining _ _
  | .disconnect _ | .launch _ _ _ | .forget _ => .isTrue trivial

instance (s : State) (label : Step) : Decidable (Apart s label) := Apart.decide s label

/-- The invariant. -/
structure Settled (s : State) : Prop where
  wired : Wired s
  greeted : ∀ id p, s.seat id = some p → p.stage = .greeted →
    ∃ b, s.flag p.worker = some b ∧ (p.draining = b ∨ Draining s.drains p.worker)
  early : ∀ id p, s.seat id = some p → p.stage.early = true → s.flag p.worker ≠ none
  live : ∀ w id p, s.sessions w = some id → s.seat id = some p →
    w ∈ s.removals ∨ ∃ b, s.flag w = some b ∧ (p.draining = b ∨ Draining s.drains w)
  removed : ∀ w, s.removed w = true → s.flag w = none ∧ (s.sessions w = none ∨ w ∈ s.removals)
  removals : ∀ w ∈ s.removals, s.removed w = true
  enrolled : ∀ w, s.removed w = true ∨ s.flag w ≠ none → w ∈ s.enrolled

theorem Settled.coherent {s : State} {w : WorkerID} (settled : Settled s) (quiet : Quiet s w) : Coherent s w where
  draining id p live seated := by
    rcases settled.live w id p live seated with pending | ⟨b, stored, same | pending⟩
    · exact absurd pending quiet.removals
    · rw [stored, same]
    · exact absurd pending quiet.drains
  removed gone := by
    obtain ⟨flag, dead | pending⟩ := settled.removed w gone
    · exact ⟨by simpa [State.flag] using flag, dead⟩
    · exact absurd pending quiet.removals

theorem Settled.boot (table : List (WorkerID × Row)) : Settled (boot table) where
  wired := Wired.boot table
  greeted id p seated := by simp [State.seat, Hub.boot] at seated
  early id p seated := by simp [State.seat, Hub.boot] at seated
  live w id p live := by cases live
  removed w gone := by cases gone
  removals w pending := by cases pending
  enrolled w known := by
    rcases known with gone | stored
    · cases gone
    · cases found : table.find? (·.1 == w) with
      | none => simp [State.flag, Hub.boot, found] at stored
      | some entry =>
        have member := List.mem_of_find?_eq_some found
        have key := List.find?_some found
        exact List.mem_map.mpr ⟨entry, member, by simpa using key⟩

/-! ### The streams and the rows -/

/-- A handler has at most moved on. -/
structure Stays (q p : Seat) : Prop where
  worker : q.worker = p.worker
  draining : q.draining = p.draining
  greeted : p.stage = .greeted → q.stage = .greeted
  early : p.stage.early = true → q.stage.early = true

theorem Stays.refl (p : Seat) : Stays p p := ⟨rfl, rfl, id, id⟩

theorem State.stays_become {u : State} {i id : Nat} {stage : Stage} {p : Seat} (seated : (u.become i stage).seat id = some p)
    (past : stage ≠ .greeted) (onward : ∀ q, u.seat i = some q → stage.early = true → q.stage.early = true) :
    ∃ q, u.seat id = some q ∧ Stays q p := by
  rw [seat_become] at seated
  obtain ⟨q, before, rfl⟩ := Option.map_eq_some_iff.mp seated
  refine ⟨q, before, ?_⟩
  by_cases here : i = id
  · subst here
    simp only [if_true]
    exact ⟨rfl, rfl, fun greeted => absurd greeted past, onward q before⟩
  · rw [if_neg here]
    exact .refl q

/-- Where a stream comes from: it has just been greeted with what is stored, or was there. -/
theorem Takes.stays {o : Options} {s t : State} {label : Step} (taken : Takes o s label t)
    (told : ∀ w draining, label ≠ .setDraining w draining) {id : Nat} {p : Seat} (seated : t.seat id = some p) :
    (p.stage = .greeted ∧ s.flag p.worker = some p.draining) ∨ ∃ q, s.seat id = some q ∧ Stays q p := by
  have of_same (same : t.seat id = s.seat id) : ∃ q, s.seat id = some q ∧ Stays q p := ⟨p, same.symm.trans seated, .refl p⟩
  cases taken with
  | @hello w row group known now found =>
    rw [State.seat_greets] at seated
    by_cases new : id = s.streams.length
    · rw [if_pos new] at seated
      cases seated
      exact .inl ⟨rfl, by simp [State.flag, found]⟩
    · rw [if_neg new] at seated
      exact .inr ⟨p, seated, .refl p⟩
  | @register i st found greeted =>
    right
    obtain ⟨orphans, seats⟩ := s.seat_registers i st
    rw [seats] at seated
    obtain ⟨q, before, rfl⟩ := Option.map_eq_some_iff.mp seated
    refine ⟨q, before, ?_⟩
    by_cases here : i = id
    · subst here
      cases (State.seat_of_get found).symm.trans before
      simp only [if_true]
      exact ⟨rfl, rfl, fun h => (by cases h), fun _ => by simp [Stream.seat, greeted, Stage.early]⟩
    · rw [if_neg here]
      exact .refl q
  | adopt found registered =>
    obtain ⟨q, before, stays⟩ := State.stays_become seated (by simp) fun q before _ => by
      cases (State.seat_of_get found).symm.trans ((s.seat_adopts _ _ _).symm.trans before)
      simp [Stream.seat, registered, Stage.early]
    exact .inr ⟨q, (s.seat_adopts _ _ _).symm.trans before, stays⟩
  | persist now => exact .inr (State.stays_become seated (by simp) (by simp [Stage.early]))
  | persistFails now => exact .inr (State.stays_become seated (by simp) (by simp [Stage.early]))
  | acknowledge => exact .inr (State.stays_become seated (by simp) (by simp [Stage.early]))
  | acknowledgeFails =>
    obtain ⟨q, before, stays⟩ := State.stays_become seated (by simp) (by simp [Stage.early])
    exact .inr ⟨q, (s.seat_evict _ _).symm.trans before, stays⟩
  | @heartbeat i _ now => exact .inr (of_same (s.seat_touch i now id))
  | @taskEvent i _ _ _ now =>
    obtain ⟨q, before, stays⟩ := State.stays_become seated (by simp) (by simp [Stage.early])
    exact .inr ⟨q, (s.seat_touch i now id).symm.trans before, stays⟩
  | @receive i _ now => exact .inr (of_same (s.seat_touch i now id))
  | @record _ k st a ev now =>
    obtain ⟨q, before, stays⟩ := State.stays_become seated (by simp) (by simp [Stage.early])
    exact .inr ⟨q, (s.seat_records st.worker ev k a now id).symm.trans before, stays⟩
  | hangUp => exact .inr (State.stays_become seated (by simp) (by simp [Stage.early]))
  | dropSession =>
    obtain ⟨q, before, stays⟩ := State.stays_become seated (by simp) (by simp [Stage.early])
    exact .inr ⟨q, (s.seat_evict _ _).symm.trans before, stays⟩
  | goodbye => exact .inr (State.stays_become seated (by simp) (by simp [Stage.early]))
  | write i => exact .inr (of_same (State.seat_onStream (f := Stream.deliver) (fun _ => rfl) id))
  | sweep now => exact .inr (of_same (s.seat_sweeps o now id))
  | setDraining pending => exact absurd rfl (told _ _)
  | @disconnect v _ => exact .inr (of_same (s.seat_disconnects v id))
  | launch => exact .inr (of_same (s.seat_assigns _ _ _ id))
  | forget => exact .inr (of_same (s.seat_untracks _ id))
  | _ => exact .inr (of_same rfl)

/-- Where an entry of the map comes from: it was there, or its stream has been waiting for it. -/
theorem Takes.enters {o : Options} {s t : State} {label : Step} (wired : Wired s) (taken : Takes o s label t)
    {w : WorkerID} {id : Nat} (live : t.sessions w = some id) :
    s.sessions w = some id ∨ ∃ q, s.seat id = some q ∧ q.worker = w ∧ q.stage = .greeted := by
  cases rewires : label.rewires with
  | false =>
    left
    rwa [taken.sessions rewires] at live
  | true =>
    cases taken with
    | @register i st found greeted =>
      rw [wired.registers_sessions] at live
      by_cases here : w = st.worker
      · rw [here, Function.update_self] at live
        cases live
        exact .inr ⟨st.seat, State.seat_of_get found, here.symm, greeted⟩
      · rw [Function.update_of_ne here] at live
        exact .inl live
    | acknowledgeFails => exact .inl (State.evict_sub live)
    | dropSession => exact .inl (State.evict_sub live)
    | sweep => exact .inl (State.evicts_sub live)
    | disconnect => exact .inl (State.disconnects_sub live)
    | _ => cases rewires

/-- The steps of the console. -/
def Step.administrative : Step → Bool
  | .enroll _ | .setWorkerDraining _ _ | .setDraining _ _ | .deleteWorker _ | .disconnect _ => true
  | _ => false

/-- No call of the console has moved, and the flags are as they were. -/
structure Undisturbed (s t : State) : Prop where
  flag : t.flag = s.flag
  drains : t.drains = s.drains
  removals : t.removals = s.removals
  removed : t.removed = s.removed
  enrolled : t.enrolled = s.enrolled

theorem Undisturbed.of_desk {s t : State} (desk : t.desk = s.desk) : Undisturbed s t where
  flag := by
    have rows : t.rows = s.rows := congrArg State.Desk.rows desk
    funext w
    rw [State.flag, State.flag, rows]
  drains := congrArg State.Desk.drains desk
  removals := congrArg State.Desk.removals desk
  removed := congrArg State.Desk.removed desk
  enrolled := congrArg State.Desk.enrolled desk

theorem State.flag_updates (s : State) (w : WorkerID) (state : WorkerState) (heartbeat : Option Time) :
    (s.updates w state heartbeat).flag = s.flag := by
  funext v
  by_cases here : v = w
  · subst here
    simp only [flag, updates, Function.update_self, Option.map_map]
    rfl
  · simp [flag, updates, here]

theorem State.flag_upserts {s : State} {w : WorkerID} (stored : s.flag w ≠ none) (row : Row) (now : Time) :
    (s.upserts w row now).flag = s.flag := by
  funext v
  by_cases here : v = w
  · subst here
    cases known : s.rows v with
    | none => simp [flag, known] at stored
    | some row' => simp [flag, upserts, known]
  · simp [flag, upserts, here]

theorem State.flag_marksLost (s : State) (stale silent : List WorkerID) : (s.marksLost stale silent).flag = s.flag := by
  funext w
  simp only [flag, marksLost]
  split
  · rw [Option.map_map]
    rfl
  · rfl

theorem Takes.undisturbed {o : Options} {s t : State} {label : Step} (taken : Takes o s label t)
    (early : ∀ id p, s.seat id = some p → p.stage.early = true → s.flag p.worker ≠ none)
    (other : label.administrative = false) : Undisturbed s t := by
  cases still : label.clerical with
  | false => exact .of_desk (taken.desk still)
  | true =>
    cases taken with
    | @persist id st now found registered =>
      have stored := early id st.seat (State.seat_of_get found) (by simp [Stream.seat, registered, Stage.early])
      exact ⟨State.flag_upserts stored st.row now, rfl, rfl, rfl, rfl⟩
    | @heartbeat id st now found reading => exact ⟨State.flag_updates _ st.worker .online (some now), rfl, rfl, rfl, rfl⟩
    | receive now m found reading => exact .of_desk rfl
    | @goodbye id st found dropped => exact ⟨s.flag_updates st.worker .offline none, rfl, rfl, rfl, rfl⟩
    | markLost sweeping => exact ⟨s.flag_marksLost _ _, rfl, rfl, rfl, rfl⟩
    | enroll | setWorkerDraining | setDraining | deleteWorker | disconnect => cases other
    | _ => cases still

namespace Settled

variable {o : Options} {s t : State} {w : WorkerID}

/-- A hello, a message or a sweep. -/
theorem undisturbed {label : Step} (settled : Settled s) (taken : Takes o s label t) (other : label.administrative = false) :
    Settled t := by
  have same := taken.undisturbed settled.early other
  have told : ∀ w draining, label ≠ .setDraining w draining := by
    rintro w draining rfl
    cases other
  constructor
  · exact settled.wired.takes taken
  · intro id p seated greeted
    rw [same.flag, same.drains]
    rcases taken.stays told seated with ⟨-, stored⟩ | ⟨q, before, stays⟩
    · exact ⟨p.draining, stored, .inl rfl⟩
    · rw [← stays.worker, ← stays.draining]
      exact settled.greeted id q before (stays.greeted greeted)
  · intro id p seated early
    rw [same.flag]
    rcases taken.stays told seated with ⟨-, stored⟩ | ⟨q, before, stays⟩
    · simp [stored]
    · rw [← stays.worker]
      exact settled.early id q before (stays.early early)
  · intro w id p live seated
    rw [same.flag, same.drains, same.removals]
    rcases taken.stays told seated with ⟨greeted, -⟩ | ⟨q, before, stays⟩
    · obtain ⟨st, found, worker, past⟩ := (settled.wired.takes taken).held w id live
      cases (State.seat_of_get found).symm.trans seated
      exact absurd greeted past
    · rw [← stays.draining]
      rcases taken.enters settled.wired live with held | ⟨q', before', worker, greeted⟩
      · exact settled.live w id q held before
      · cases before.symm.trans before'
        right
        rw [← worker]
        exact settled.greeted id q before greeted
  · intro w gone
    rw [same.removed] at gone
    rw [same.flag, same.removals]
    obtain ⟨flag, dead | pending⟩ := settled.removed w gone
    · refine ⟨flag, .inl ?_⟩
      cases live : t.sessions w with
      | none => rfl
      | some id =>
        rcases taken.enters settled.wired live with held | ⟨q, before, rfl, greeted⟩
        · rw [dead] at held
          cases held
        · exact absurd flag (settled.early id q before (by simp [greeted, Stage.early]))
    · exact ⟨flag, .inr pending⟩
  · intro w pending
    rw [same.removed]
    exact settled.removals w (same.removals ▸ pending)
  · intro w known
    rw [same.removed, same.flag] at known
    rw [same.enrolled]
    exact settled.enrolled w known

theorem enroll (settled : Settled s) (fresh : w ∉ s.enrolled) :
    Settled { s with rows := Function.update s.rows w (some {}), enrolled := s.enrolled ++ [w] } := by
  have unknown : s.flag w = none := by
    by_contra stored
    exact fresh (settled.enrolled w (.inr stored))
  have kept : s.removed w = false := by
    by_contra gone
    exact fresh (settled.enrolled w (.inl (by simpa using gone)))
  have flag {v : WorkerID} (elsewhere : v ≠ w) :
      State.flag { s with rows := Function.update s.rows w (some {}), enrolled := s.enrolled ++ [w] } v = s.flag v := by
    simp [State.flag, elsewhere]
  constructor
  · exact settled.wired.congr rfl rfl
  · intro id p seated greeted
    obtain ⟨b, stored, facts⟩ := settled.greeted id p seated greeted
    have elsewhere : p.worker ≠ w := by
      intro here
      rw [here, unknown] at stored
      cases stored
    exact ⟨b, (flag elsewhere).trans stored, facts⟩
  · intro id p seated early
    have stored := settled.early id p seated early
    have elsewhere : p.worker ≠ w := by
      intro here
      exact stored (here ▸ unknown)
    rw [flag elsewhere]
    exact stored
  · intro v id p live seated
    rcases settled.live v id p live seated with pending | ⟨b, stored, facts⟩
    · exact .inl pending
    · have elsewhere : v ≠ w := by
        rintro rfl
        rw [unknown] at stored
        cases stored
      exact .inr ⟨b, (flag elsewhere).trans stored, facts⟩
  · intro v gone
    have elsewhere : v ≠ w := by
      rintro rfl
      have gone : s.removed v = true := gone
      rw [kept] at gone
      cases gone
    rw [flag elsewhere]
    exact settled.removed v gone
  · exact settled.removals
  · intro v known
    by_cases here : v = w
    · simp [here]
    · rw [flag here] at known
      exact List.mem_append_left _ (settled.enrolled v known)

theorem setWorkerDraining (settled : Settled s) {row : Row} (found : s.rows w = some row) (draining : Bool) :
    Settled { s with
      rows := Function.update s.rows w (some { row with draining }), drains := s.drains ++ [(w, draining)] } := by
  have stored : s.flag w = some row.draining := by simp [State.flag, found]
  have flag {v : WorkerID} (elsewhere : v ≠ w) :
      State.flag { s with rows := Function.update s.rows w (some { row with draining }), drains := s.drains ++ [(w, draining)] } v =
        s.flag v := by
    simp [State.flag, elsewhere]
  have own : State.flag { s with rows := Function.update s.rows w (some { row with draining }), drains := s.drains ++ [(w, draining)] } w =
      some draining := by
    simp [State.flag]
  have pending : Draining (s.drains ++ [(w, draining)]) w := ⟨draining, by simp⟩
  have still {v : WorkerID} (before : Draining s.drains v) : Draining (s.drains ++ [(w, draining)]) v := by
    obtain ⟨b, member⟩ := before
    exact ⟨b, List.mem_append_left _ member⟩
  constructor
  · exact settled.wired.congr rfl rfl
  · intro id p seated greeted
    by_cases here : p.worker = w
    · rw [here]
      exact ⟨draining, own, .inr pending⟩
    · obtain ⟨b, known, facts⟩ := settled.greeted id p seated greeted
      exact ⟨b, (flag here).trans known, facts.imp_right still⟩
  · intro id p seated early
    by_cases here : p.worker = w
    · rw [here, own]
      simp
    · rw [flag here]
      exact settled.early id p seated early
  · intro v id p live seated
    by_cases here : v = w
    · subst here
      exact .inr ⟨draining, own, .inr pending⟩
    · rcases settled.live v id p live seated with removal | ⟨b, known, facts⟩
      · exact .inl removal
      · exact .inr ⟨b, (flag here).trans known, facts.imp_right still⟩
  · intro v gone
    have facts := settled.removed v gone
    have elsewhere : v ≠ w := by
      rintro rfl
      rw [stored] at facts
      cases facts.1
    rw [flag elsewhere]
    exact facts
  · exact settled.removals
  · intro v known
    by_cases here : v = w
    · subst here
      exact settled.enrolled v (.inr (by simp [stored]))
    · rw [flag here] at known
      exact settled.enrolled v known

/-- The hub is told, by the last pending call with what is stored. -/
theorem setDraining (settled : Settled s) {draining : Bool} (apart : Apart s (.setDraining w draining)) :
    Settled { (s.onCurrent w (Stream.drain draining)) with drains := s.drains.erase (w, draining) } := by
  have desk := Undisturbed.of_desk (s.desk_onCurrent w (Stream.drain draining))
  have sessions := s.onCurrent_sessions w (Stream.drain draining)
  have seats {id : Nat} {p : Seat} (seated : (s.onCurrent w (Stream.drain draining)).seat id = some p) :
      ∃ q, s.seat id = some q ∧ q.worker = p.worker ∧ q.stage = p.stage ∧
        p.draining = if s.sessions w = some id then draining else q.draining := by
    rw [s.seat_drain] at seated
    obtain ⟨q, before, rfl⟩ := Option.map_eq_some_iff.mp seated
    refine ⟨q, before, ?_⟩
    by_cases here : s.sessions w = some id <;> simp [here]
  have still {v : WorkerID} (elsewhere : v ≠ w) (before : Draining s.drains v) : Draining (s.drains.erase (w, draining)) v := by
    obtain ⟨b, member⟩ := before
    exact ⟨b, (List.mem_erase_of_ne (by simp [elsewhere])).mpr member⟩
  constructor
  · exact (settled.wired.onCurrent (f := Stream.drain draining) fun _ => ⟨rfl, rfl, rfl⟩).congr rfl rfl
  · intro id p seated greeted
    obtain ⟨q, before, worker, stage, drained⟩ := seats seated
    obtain ⟨b, stored, facts⟩ := settled.greeted id q before (stage.trans greeted)
    have dead : s.sessions w ≠ some id := by
      intro live
      obtain ⟨st, found, -, past⟩ := settled.wired.held w id live
      cases (State.seat_of_get found).symm.trans before
      exact past (stage.trans greeted)
    rw [if_neg dead] at drained
    rw [← worker, drained]
    refine ⟨b, (congrFun desk.flag _).trans stored, ?_⟩
    by_cases here : q.worker = w
    · rcases apart with pending | ⟨last, read⟩
      · exact .inr (here ▸ pending)
      · rw [← here, stored] at last
        have same : b = draining := by simpa using last
        left
        rw [read id q before here (stage.trans greeted), same]
    · exact facts.imp_right (still here)
  · intro id p seated early
    obtain ⟨q, before, worker, stage, -⟩ := seats seated
    have stored := settled.early id q before (stage ▸ early)
    rw [← worker]
    exact (congrFun desk.flag q.worker) ▸ stored
  · intro v id p live seated
    obtain ⟨q, before, worker, stage, drained⟩ := seats seated
    have held : s.sessions v = some id := (congrFun sessions v).symm.trans live
    rcases settled.live v id q held before with pending | ⟨b, stored, facts⟩
    · exact .inl (desk.removals ▸ pending)
    · refine .inr ⟨b, (congrFun desk.flag v).trans stored, ?_⟩
      by_cases here : v = w
      · subst here
        rcases apart with pending | ⟨last, -⟩
        · exact .inr pending
        · rw [stored] at last
          have same : b = draining := by simpa using last
          left
          rw [drained, if_pos held, same]
      · have elsewhere : s.sessions w ≠ some id := by
          intro other
          obtain ⟨st, found, own, -⟩ := settled.wired.held v id held
          obtain ⟨st', found', own', -⟩ := settled.wired.held w id other
          cases found.symm.trans found'
          exact here (own.symm.trans own')
        rw [if_neg elsewhere] at drained
        rw [drained]
        exact facts.imp_right (still here)
  · intro v gone
    obtain ⟨flag, facts⟩ := settled.removed v ((congrFun desk.removed v).symm.trans gone)
    refine ⟨(congrFun desk.flag v).trans flag, facts.imp (fun dead => (congrFun sessions v).trans dead) fun pending => ?_⟩
    exact desk.removals ▸ pending
  · intro v pending
    exact (congrFun desk.removed v).trans (settled.removals v (desk.removals ▸ pending))
  · intro v known
    have before : s.removed v = true ∨ s.flag v ≠ none :=
      known.imp (fun gone => (congrFun desk.removed v).symm.trans gone) fun stored => (congrFun desk.flag v) ▸ stored
    exact desk.enrolled ▸ settled.enrolled v before

theorem deleteWorker (settled : Settled s) {row : Row} (found : s.rows w = some row) (apart : Apart s (.deleteWorker w)) :
    Settled { s with
      rows := Function.update s.rows w none, removals := s.removals ++ [w], removed := Function.update s.removed w true } := by
  have stored : s.flag w = some row.draining := by simp [State.flag, found]
  have flag {v : WorkerID} (elsewhere : v ≠ w) :
      State.flag { s with
        rows := Function.update s.rows w none, removals := s.removals ++ [w], removed := Function.update s.removed w true } v =
        s.flag v := by
    simp [State.flag, elsewhere]
  constructor
  · exact settled.wired.congr rfl rfl
  · intro id p seated greeted
    obtain ⟨b, known, facts⟩ := settled.greeted id p seated greeted
    have elsewhere : p.worker ≠ w := by
      intro here
      simpa [greeted, Stage.early] using apart id p seated here
    exact ⟨b, (flag elsewhere).trans known, facts⟩
  · intro id p seated early
    have elsewhere : p.worker ≠ w := by
      intro here
      simp [apart id p seated here] at early
    rw [flag elsewhere]
    exact settled.early id p seated early
  · intro v id p live seated
    by_cases here : v = w
    · subst here
      simp
    · rcases settled.live v id p live seated with pending | ⟨b, known, facts⟩
      · exact .inl (List.mem_append_left _ pending)
      · exact .inr ⟨b, (flag here).trans known, facts⟩
  · intro v gone
    by_cases here : v = w
    · subst here
      exact ⟨by simp [State.flag], .inr (by simp)⟩
    · rw [flag here]
      obtain ⟨unknown, facts⟩ := settled.removed v (by simpa [here] using gone)
      exact ⟨unknown, facts.imp_right (List.mem_append_left _)⟩
  · intro v pending
    by_cases here : v = w
    · simp [here]
    · have already : v ∈ s.removals := by simpa [here] using pending
      simpa [here] using settled.removals v already
  · intro v known
    by_cases here : v = w
    · subst here
      exact settled.enrolled v (.inr (by simp [stored]))
    · rw [flag here] at known
      exact settled.enrolled v (by simpa [here] using known)

theorem disconnect (settled : Settled s) :
    Settled { (s.disconnects w) with removals := s.removals.erase w } := by
  have desk := Undisturbed.of_desk (s.desk_disconnects w)
  have sessions := settled.wired.disconnects_sessions w
  have still {v : WorkerID} (elsewhere : v ≠ w) (before : v ∈ s.removals) : v ∈ s.removals.erase w :=
    (List.mem_erase_of_ne elsewhere).mpr before
  constructor
  · exact (settled.wired.disconnects w).congr rfl rfl
  · intro id p seated greeted
    obtain ⟨b, stored, facts⟩ := settled.greeted id p ((s.seat_disconnects w id).symm.trans seated) greeted
    exact ⟨b, (congrFun desk.flag _).trans stored, facts.imp_right fun pending => desk.drains ▸ pending⟩
  · intro id p seated early
    have stored := settled.early id p ((s.seat_disconnects w id).symm.trans seated) early
    exact (congrFun desk.flag p.worker) ▸ stored
  · intro v id p live seated
    have elsewhere : v ≠ w := by
      rintro rfl
      have live : (s.disconnects v).sessions v = some id := live
      rw [sessions, Function.update_self] at live
      cases live
    have held : s.sessions v = some id := State.disconnects_sub live
    rcases settled.live v id p held ((s.seat_disconnects w id).symm.trans seated) with pending | ⟨b, stored, facts⟩
    · exact .inl (still elsewhere pending)
    · exact .inr ⟨b, (congrFun desk.flag v).trans stored, facts.imp_right fun pending => desk.drains ▸ pending⟩
  · intro v gone
    obtain ⟨flag, facts⟩ := settled.removed v ((congrFun desk.removed v).symm.trans gone)
    refine ⟨(congrFun desk.flag v).trans flag, ?_⟩
    show (s.disconnects w).sessions v = none ∨ v ∈ s.removals.erase w
    rw [sessions]
    by_cases here : v = w
    · left
      simp [here]
    · rw [Function.update_of_ne here]
      exact facts.imp_right (still here)
  · intro v pending
    exact (congrFun desk.removed v).trans (settled.removals v (List.mem_of_mem_erase pending))
  · intro v known
    have before : s.removed v = true ∨ s.flag v ≠ none :=
      known.imp (fun gone => (congrFun desk.removed v).symm.trans gone) fun stored => (congrFun desk.flag v) ▸ stored
    exact desk.enrolled ▸ settled.enrolled v before

theorem takes {label : Step} (settled : Settled s) (apart : Apart s label) (taken : Takes o s label t) : Settled t := by
  cases other : label.administrative with
  | false => exact settled.undisturbed taken other
  | true =>
    cases taken with
    | enroll fresh => exact settled.enroll fresh
    | setWorkerDraining draining found => exact settled.setWorkerDraining found draining
    | setDraining pending => exact settled.setDraining apart
    | deleteWorker found => exact settled.deleteWorker found apart
    | disconnect pending => exact settled.disconnect
    | _ => cases other

end Settled

/-- Where the calls of the console and the hellos keep apart, the row and the session of a worker
agree once they have completed. -/
theorem coherent_of_apart {o : Options} {table : List (WorkerID × Row)} {s : State}
    (reached : Reach (step o) Apart (boot table) s) {w : WorkerID} (quiet : Quiet s w) : Coherent s w := by
  have settled : Settled s :=
    reached.invariant (Settled.boot table) fun _ _ _ settled apart stepped => settled.takes apart (step_takes stepped)
  exact settled.coherent quiet

/-- A worker that is drained while it is connected, and a hello between the row and the hub. -/
def drainedLate : List Step :=
  [.hello "wk_1" "default" [] 0, .register 0, .persist 0 0 true, .acknowledge 0 true, .setWorkerDraining "wk_1" true,
    .hello "wk_1" "default" [] 5, .register 1, .setDraining "wk_1" true, .persist 1 5 true, .acknowledge 1 true]

theorem coherent_of_apart_drainedLate :
    ∃ s, runSteps (step {}) (boot [("wk_1", {})]) drainedLate = some s ∧ s.sessions "wk_1" = some 1 ∧ Coherent s "wk_1" := by
  have ran : (runSteps (step {}) (boot [("wk_1", {})]) drainedLate).any
      (fun s => s.sessions "wk_1" == some 1 && decide (Quiet s "wk_1")) = true := by
    decide +kernel
  obtain ⟨s, ran, facts⟩ := (Option.any_eq_true _ _).mp ran
  simp only [Bool.and_eq_true, beq_iff_eq, decide_eq_true_eq] at facts
  have apart : EachStep (step {}) Apart (boot [("wk_1", {})]) drainedLate := by decide +kernel
  exact ⟨s, ran, facts.1, coherent_of_apart (apart.reach ran) facts.2⟩

/-- A hello that has read the row before the console changes it, and is registered afterwards. -/
def overtaken (calls : List Step) : List Step :=
  [.hello "wk_1" "default" [] 0] ++ calls ++ [.register 0, .persist 0 0 true, .acknowledge 0 true]

/-- The session of a drained worker takes new work, and a removed worker is back with its row. -/
theorem overtaken_not_coherent :
    (∃ s, runSteps (step {}) (boot [("wk_1", {})])
        (overtaken [.setWorkerDraining "wk_1" true, .setDraining "wk_1" true]) = some s ∧
      Quiet s "wk_1" ∧ ¬Coherent s "wk_1") ∧
    ∃ s, runSteps (step {}) (boot [("wk_1", {})]) (overtaken [.deleteWorker "wk_1", .disconnect "wk_1"]) = some s ∧
      Quiet s "wk_1" ∧ ¬Coherent s "wk_1" := by
  constructor
  · have ran : (runSteps (step {}) (boot [("wk_1", {})])
        (overtaken [.setWorkerDraining "wk_1" true, .setDraining "wk_1" true])).any (fun s => decide (Quiet s "wk_1") &&
          s.sessions "wk_1" == some 0 && s.seat 0 == some ⟨"wk_1", .reading, false⟩ && s.flag "wk_1" == some true) = true := by
      decide +kernel
    obtain ⟨s, ran, facts⟩ := (Option.any_eq_true _ _).mp ran
    simp only [Bool.and_eq_true, beq_iff_eq, decide_eq_true_eq] at facts
    obtain ⟨⟨⟨quiet, live⟩, seated⟩, stored⟩ := facts
    refine ⟨s, ran, quiet, fun coherent => ?_⟩
    have same := coherent.draining 0 _ live seated
    rw [stored] at same
    cases same
  · have ran : (runSteps (step {}) (boot [("wk_1", {})]) (overtaken [.deleteWorker "wk_1", .disconnect "wk_1"])).any
        (fun s => decide (Quiet s "wk_1") && s.removed "wk_1" && s.sessions "wk_1" == some 0) = true := by
      decide +kernel
    obtain ⟨s, ran, facts⟩ := (Option.any_eq_true _ _).mp ran
    simp only [Bool.and_eq_true, beq_iff_eq, decide_eq_true_eq] at facts
    obtain ⟨⟨quiet, gone⟩, live⟩ := facts
    refine ⟨s, ran, quiet, fun coherent => ?_⟩
    have dead := (coherent.removed gone).2
    rw [live] at dead
    cases dead

end Cronova.Worker.Hub
