import Cronova.Calendar
import Cronova.Process.Reach
import Cronova.Worker.Protocol
import Mathlib.Algebra.Group.Int.Defs

/-! The hub's bookkeeping of workers (`internal/workerhub/hub.go`): the sessions of the workers, the
attempts that they were assigned, and the rows of `workers`.

The handlers of the streams, the sweep, the console and the dispatcher share two maps under one
mutex. A step here is what one of them does between two acquisitions of that mutex, or one
statement of the store.
-/

set_option autoImplicit false

namespace Cronova.Worker.Hub

open Calendar (Time)
open Process

abbrev WorkerID := String

inductive WorkerState where
  | online | offline | lost
  deriving Repr, DecidableEq

/-- A row of `workers`. -/
structure Row where
  state : WorkerState := .offline
  draining : Bool := false
  lastHeartbeat : Option Time := none
  deriving Repr, DecidableEq

/-- The hub's part of a `TaskEvent`. -/
structure Event where
  ref : Ref
  phase : Phase
  launchError : Bool := false
  deriving Repr, DecidableEq

/-- Where `Session` stands. -/
inductive Stage where
  /-- The row was read and the session is not in the map yet. -/
  | greeted
  /-- Registered, with the orphans that are still to be adopted; the row is not written back yet. -/
  | registered (orphans : List Ref)
  /-- Before the `HelloAck`. -/
  | persisted
  | reading
  /-- `handleTaskEvent` has looked up the `refState` and not taken the lock again. -/
  | recording (ev : Event) (object : Nat)
  /-- The reader loop has ended and `dropSession` is still to come. -/
  | leaving
  /-- Before the last statement of the handler. -/
  | dropped
  | ended
  deriving Repr, DecidableEq

/-- A `session`, with the handler that serves its stream. -/
structure Stream where
  worker : WorkerID
  group : String
  /-- `ActiveRefs` of the hello. -/
  known : List Ref
  /-- The row as the handler has read it. -/
  row : Row
  draining : Bool
  active : Nat := 0
  /-- The length of `send`. -/
  queue : Nat := 0
  lastSeen : Time
  /-- How often `done` was closed. -/
  closes : Nat := 0
  stage : Stage := .greeted
  deriving Repr, DecidableEq

namespace Stream

def touch (now : Time) (st : Stream) : Stream := { st with lastSeen := now }

def gain (st : Stream) : Stream := { st with active := st.active + 1 }

def release (st : Stream) : Stream := { st with active := st.active - 1 }

/-- An assignment is queued for the worker. -/
def accept (st : Stream) : Stream := { st with active := st.active + 1, queue := st.queue + 1 }

def deliver (st : Stream) : Stream := { st with queue := st.queue - 1 }

def drain (draining : Bool) (st : Stream) : Stream := { st with draining }

end Stream

/-- A `refState`. One that was deleted from the map is not `tracked` any more, but a handler may
still hold it. -/
structure Assignment where
  ref : Ref
  worker : WorkerID
  phase : Phase := .running
  lost : Bool := false
  doneAt : Option Time := none
  tracked : Bool := true
  deriving Repr, DecidableEq

/-- A sweep between its two critical sections. -/
structure Sweep where
  now : Time
  stale : List WorkerID
  /-- The workers whose row is still to be looked up. -/
  candidates : List WorkerID
  silent : List WorkerID := []
  deriving Repr, DecidableEq

/-- `removed` and `enrolled` are history. -/
structure State where
  /-- Every session ever made, in the order of the hellos. -/
  streams : List Stream := []
  /-- `hub.sessions`. -/
  sessions : WorkerID → Option Nat := fun _ => none
  /-- Every `refState` ever made. -/
  assignments : List Assignment := []
  rows : WorkerID → Option Row := fun _ => none
  sweeping : Option Sweep := none
  /-- The calls of `drainWorker` that have written the row and not told the hub. -/
  drains : List (WorkerID × Bool) := []
  /-- The calls of `removeWorker` that have deleted the row and not told the hub. -/
  removals : List WorkerID := []
  removed : WorkerID → Bool := fun _ => false
  enrolled : List WorkerID := []

structure Options where
  lostAfter : Time := 15 * Calendar.second
  boot : Time := 0

inductive Message where
  | heartbeat
  | taskEvent (ev : Event)
  | logChunk
  deriving Repr, DecidableEq

inductive Step where
  /-- `joinWorker`: the id is random. -/
  | enroll (w : WorkerID)
  /-- `Session` up to the session object. -/
  | hello (w : WorkerID) (group : String) (known : List Ref) (now : Time)
  | register (id : Nat)
  /-- `adoptOrphans`, one ref. -/
  | adopt (id : Nat)
  /-- `UpsertWorker`. -/
  | persist (id : Nat) (now : Time) (ok : Bool)
  /-- The `HelloAck` is sent, or cannot be sent. -/
  | acknowledge (id : Nat) (ok : Bool)
  | receive (id : Nat) (now : Time) (m : Message)
  /-- The second half of `handleTaskEvent`. -/
  | record (id : Nat) (now : Time)
  /-- `Recv` returns an error. -/
  | hangUp (id : Nat)
  | dropSession (id : Nat)
  /-- The last statement of `Session`. -/
  | goodbye (id : Nat)
  /-- The writer goroutine takes a message out of `send`. -/
  | write (id : Nat)
  | sweep (now : Time)
  /-- `workerSilentTooLong`; the lookup may fail. -/
  | inspect (w : WorkerID) (ok : Bool)
  | markLost
  | setWorkerDraining (w : WorkerID) (draining : Bool)
  | setDraining (w : WorkerID) (draining : Bool)
  | deleteWorker (w : WorkerID)
  | disconnect (w : WorkerID)
  /-- `groupExec.Launch`; of several least loaded sessions any may come first in the map. -/
  | launch (group : String) (ref : Ref) (best : Nat)
  | forget (ref : Ref)

/-- The capacity of `send`. -/
def sendCap : Nat := 64

/-- How long a terminal ref is kept. -/
def refGrace : Time := 30 * 60 * Calendar.second

/-! ### `splitRef` -/

/-- `strconv.Atoi`: an optional sign and decimal digits that fit into 64 bits. -/
def atoi (text : List Char) : Option Int :=
  let (negative, digits) := match text with
    | '-' :: rest => (true, rest)
    | '+' :: rest => (false, rest)
    | _ => (false, text)
  if digits.isEmpty || !digits.all Char.isDigit then none else
  let n : Int := digits.foldl (fun n c => 10 * n + (c.toNat - '0'.toNat)) 0
  let n := if negative then -n else n
  if -(2 ^ 63) ≤ n ∧ n < 2 ^ 63 then some n else none

/-- `splitRef`: the first slash ends the run id and the last one starts the try number. -/
def splitRef (ref : Ref) : Option (String × String × Int) :=
  let text := ref.toList
  let run := text.takeWhile (· ≠ '/')
  let try_ := (text.reverse.takeWhile (· ≠ '/')).reverse
  let task := (text.drop (run.length + 1)).take (text.length - run.length - try_.length - 2)
  if run = [] ∨ text.count '/' < 2 then none else
  (atoi try_).map fun n => (String.ofList run, String.ofList task, n)

example : splitRef "etl__1/load/2" = some ("etl__1", "load", 2) := by decide

/-! ### The critical sections -/

namespace State

variable (s : State)

def onStream (id : Nat) (f : Stream → Stream) : State := { s with streams := s.streams.modify id f }

def become (id : Nat) (stage : Stage) : State := s.onStream id ({ · with stage })

/-- The session of a worker. -/
def current (w : WorkerID) : Option Stream := (s.sessions w).bind fun id => s.streams[id]?

/-- A change of the session that a worker has now. -/
def onCurrent (w : WorkerID) (f : Stream → Stream) : State :=
  match s.sessions w with
  | some id => s.onStream id f
  | none => s

/-- `dropSession`; the other places that delete a session do this to the one in the map. -/
def evict (id : Nat) : State :=
  match s.streams[id]? with
  | some st => if s.sessions st.worker = some id then
      { s.onStream id (fun st => { st with closes := st.closes + 1 }) with
        sessions := Function.update s.sessions st.worker none }
    else s
  | none => s

/-- The session of a worker leaves the map, as in `Disconnect`. -/
def disconnects (w : WorkerID) : State :=
  match s.sessions w with
  | some id => s.evict id
  | none => s

/-- The entry of `hub.refs`. -/
def lookup (ref : Ref) : Option Nat := s.assignments.findIdx? fun a => a.tracked && a.ref == ref

/-- The refs of a worker that run, as the map has them. -/
def Running (w : WorkerID) (a : Assignment) : Bool := a.tracked && a.worker == w && a.phase == .running

/-- How many attempts a worker runs. -/
def load (w : WorkerID) : Nat := s.assignments.countP (Running w)

/-- `Session` before its critical section. -/
def greets (w : WorkerID) (group : String) (known : List Ref) (row : Row) (now : Time) : State :=
  { s with streams := s.streams ++ [{ worker := w, group, known, row, draining := row.draining, lastSeen := now }] }

/-- The critical section of the hello. -/
def registers (id : Nat) (st : Stream) : State :=
  -- a reconnect replaces the previous stream
  let s := s.disconnects st.worker
  let running := s.assignments.filter (Running st.worker)
  { s.onStream id (fun new => { new with
      active := s.load st.worker
      queue := min sendCap (running.countP fun a => a.ref ∉ st.known)
      stage := .registered (st.known.filter fun ref => (s.lookup ref).isNone) }) with
    sessions := Function.update s.sessions st.worker (some id)
    assignments := s.assignments.map fun a => if Running st.worker a then { a with lost := false } else a }

/-- `adoptOrphans` for one ref: another hello may have come first. -/
def adopts (w : WorkerID) (ref : Ref) : State :=
  if (splitRef ref).isNone ∨ (s.lookup ref).isSome then s else
  State.onCurrent { s with assignments := s.assignments ++ [{ ref, worker := w }] } w
    Stream.gain

/-- `UpsertWorker`: only a new row takes the `draining` flag. -/
def upserts (w : WorkerID) (row : Row) (now : Time) : State :=
  { s with rows := Function.update s.rows w (some
    { state := .online, draining := ((s.rows w).getD row).draining, lastHeartbeat := some now }) }

/-- `UpdateWorkerStatus`. -/
def updates (w : WorkerID) (state : WorkerState) (heartbeat : Option Time) : State :=
  { s with rows := Function.update s.rows w ((s.rows w).map fun row =>
    { row with state, lastHeartbeat := heartbeat.or row.lastHeartbeat }) }

end State

def Phase.isExited : Phase → Bool
  | .exited _ => true
  | _ => false

/-- What `handleTaskEvent` makes of a `refState`. -/
def Assignment.record (a : Assignment) (ev : Event) (now : Time) : Assignment :=
  let a := match ev.phase with
    | .running => { a with phase := .running }
    | .exited code => { a with phase := .exited code, doneAt := some now }
    | .unknown => { a with phase := .unknown, doneAt := some now }
  if ev.launchError then { a with phase := .exited 127, doneAt := some now } else a

/-- Whether `handleTaskEvent` takes the attempt off the session's counter. -/
def Assignment.released (a : Assignment) (ev : Event) : Bool :=
  Phase.isExited ev.phase && !Phase.isExited a.phase

namespace State

variable (s : State)

/-- The second half of `handleTaskEvent`. -/
def records (w : WorkerID) (ev : Event) (object : Nat) (a : Assignment) (now : Time) : State :=
  let s := if a.released ev then s.onCurrent w Stream.release else s
  { s with assignments := s.assignments.modify object (·.record ev now) }

/-- The sessions that have been silent for too long. -/
def staleSessions (o : Options) (now : Time) : List Nat :=
  (List.range s.streams.length).filter fun id => (s.streams[id]?).any fun st =>
    s.sessions st.worker == some id && decide (now - st.lastSeen > o.lostAfter)

/-- The first critical section of the sweep. -/
def sweeps (o : Options) (now : Time) : State :=
  let stale := s.staleSessions o now
  let s' := stale.foldl evict s
  let assignments := s'.assignments.map fun a =>
    if a.phase ≠ .running ∧ a.doneAt.any (fun done => decide (now - done > refGrace)) then { a with tracked := false } else a
  { s' with
    assignments
    sweeping := some {
      now
      stale := stale.filterMap fun id => (s.streams[id]?).map (·.worker)
      candidates := (assignments.filter fun a =>
        a.tracked && a.phase == .running && !a.lost && (s'.sessions a.worker).isNone).map (·.worker) } }

/-- `workerSilentTooLong`. -/
def silentTooLong (o : Options) (now : Time) (w : WorkerID) (ok : Bool) : Bool :=
  match s.rows w with
  | some row => if !ok || row.state == .lost then true else
      match row.lastHeartbeat with
      | none => decide (now - o.boot > o.lostAfter)
      | some heartbeat => decide (now - heartbeat > o.lostAfter)
  | none => true

/-- What the second critical section releases: it looks at the sessions again. -/
def Abandoned (silent : List WorkerID) (a : Assignment) : Bool :=
  a.tracked && a.phase == .running && !a.lost && silent.contains a.worker && (s.sessions a.worker).isNone

/-- The second critical section and the status updates after it. -/
def marksLost (stale silent : List WorkerID) : State :=
  { s with
    assignments := s.assignments.map fun a => if s.Abandoned silent a then { a with lost := true } else a
    rows := fun w => if w ∈ stale ∨ w ∈ (s.assignments.filter (s.Abandoned silent)).map (·.worker)
      then (s.rows w).map ({ · with state := .lost }) else s.rows w
    sweeping := none }

/-- A live session that takes new work for the group. -/
def Routable (group : String) (id : Nat) : Bool :=
  (s.streams[id]?).any fun st => s.sessions st.worker == some id && st.group == group && !st.draining

/-- No routable session of the group has less to do. -/
def LeastLoaded (group : String) (id : Nat) : Bool :=
  s.Routable group id && (List.range s.streams.length).all fun other =>
    !s.Routable group other || decide (((s.streams[id]?).map (·.active)).getD 0 ≤ ((s.streams[other]?).map (·.active)).getD 0)

/-- `delete(h.refs, ref)`. -/
def untracks (ref : Ref) : State :=
  match s.lookup ref with
  | some object => { s with assignments := s.assignments.modify object ({ · with tracked := false }) }
  | none => s

/-- An assignment that takes the place of an earlier one, unless the queue is full. -/
def assigns (ref : Ref) (best : Nat) (st : Stream) : State :=
  let s := s.untracks ref
  if st.queue < sendCap then
    { s.onStream best Stream.accept with
      assignments := s.assignments ++ [{ ref, worker := st.worker }] }
  else { s with assignments := s.assignments ++ [{ ref, worker := st.worker, tracked := false }] }

end State

def step (o : Options) (s : State) : Step → Option State
  | .enroll w => if w ∈ s.enrolled then none else some { s with
      rows := Function.update s.rows w (some {})
      enrolled := s.enrolled ++ [w] }
  | .hello w group known now => (s.rows w).map fun row => s.greets w group known row now
  | .register id => match s.streams[id]? with
    | some st => if st.stage = .greeted then some (s.registers id st) else none
    | none => none
  | .adopt id => match s.streams[id]? with
    | some st => match st.stage with
      | .registered (ref :: rest) => some ((s.adopts st.worker ref).become id (.registered rest))
      | _ => none
    | none => none
  | .persist id now ok => match s.streams[id]? with
    | some st => if st.stage = .registered [] then
        some ((if ok then s.upserts st.worker st.row now else s).become id .persisted) else none
    | none => none
  | .acknowledge id ok => match s.streams[id]? with
    | some st => if st.stage = .persisted then
        -- a failed `Send` skips the status update
        some (if ok then s.become id .reading else (s.evict id).become id .ended) else none
    | none => none
  | .receive id now m => match s.streams[id]? with
    | some st => if st.stage = .reading then
        -- every message counts as a sign of life
        let s := s.onStream id (Stream.touch now)
        match m with
        | .heartbeat => some (s.updates st.worker .online (some now))
        | .taskEvent ev => match s.lookup ev.ref with
          | some object =>
            if (s.assignments[object]?).any (·.worker == st.worker) then some (s.become id (.recording ev object)) else some s
          | none => some s
        | .logChunk => some s
      else none
    | none => none
  | .record id now => match s.streams[id]? with
    | some st => match st.stage with
      | .recording ev object => (s.assignments[object]?).map fun a => (s.records st.worker ev object a now).become id .reading
      | _ => none
    | none => none
  | .hangUp id => match s.streams[id]? with
    | some st => if st.stage = .reading then some (s.become id .leaving) else none
    | none => none
  | .dropSession id => match s.streams[id]? with
    | some st => if st.stage = .leaving then some ((s.evict id).become id .dropped) else none
    | none => none
  | .goodbye id => match s.streams[id]? with
    | some st => if st.stage = .dropped then some ((s.updates st.worker .offline none).become id .ended) else none
    | none => none
  | .write id => some (s.onStream id Stream.deliver)
  | .sweep now => if s.sweeping = none then some (s.sweeps o now) else none
  | .inspect w ok => match s.sweeping with
    | some sw => if w ∈ sw.candidates then
        some { s with sweeping := some { sw with
          candidates := sw.candidates.filter (· ≠ w)
          silent := if w ∈ sw.stale ∨ s.silentTooLong o sw.now w ok then w :: sw.silent else sw.silent } }
      else none
    | none => none
  | .markLost => match s.sweeping with
    | some sw => if sw.candidates = [] then
        some (s.marksLost sw.stale sw.silent) else none
    | none => none
  | .setWorkerDraining w draining => (s.rows w).map fun row => { s with
      rows := Function.update s.rows w (some { row with draining })
      drains := s.drains ++ [(w, draining)] }
  | .setDraining w draining => if (w, draining) ∈ s.drains then
      some { (s.onCurrent w (Stream.drain draining)) with drains := s.drains.erase (w, draining) }
    else none
  | .deleteWorker w => (s.rows w).map fun _ => { s with
      rows := Function.update s.rows w none
      removals := s.removals ++ [w]
      removed := Function.update s.removed w true }
  | .disconnect w => if w ∈ s.removals then
      some { (s.disconnects w) with removals := s.removals.erase w } else none
  | .launch group ref best =>
    let known := (s.lookup ref).bind fun object => s.assignments[object]?
    if known.any fun a => !a.lost && a.phase != .unknown then some s else
    match s.streams[best]? with
    | some st => if s.LeastLoaded group best then some (s.assigns ref best st) else none
    | none => none
  | .forget ref =>
    let known := (s.lookup ref).bind fun object => s.assignments[object]?
    some (if known.any fun a => a.phase != .running then s.untracks ref else s)

/-- The hub after a start, with the workers that the store knows. -/
def boot (table : List (WorkerID × Row)) : State where
  rows w := (table.find? (·.1 == w)).map (·.2)
  enrolled := table.map (·.1)

/-- What the machine reaches after a start, by any interleaving. -/
def Reached (o : Options) (table : List (WorkerID × Row)) (s : State) : Prop :=
  Reach (step o) (fun _ _ => True) (boot table) s

/-- What a step does, with what it has found. -/
inductive Takes (o : Options) (s : State) : Step → State → Prop where
  | enroll {w : WorkerID} : w ∉ s.enrolled → Takes o s (.enroll w) { s with
      rows := Function.update s.rows w (some {})
      enrolled := s.enrolled ++ [w] }
  | hello {w : WorkerID} {row : Row} (group : String) (known : List Ref) (now : Time) : s.rows w = some row →
      Takes o s (.hello w group known now) (s.greets w group known row now)
  | register {id : Nat} {st : Stream} : s.streams[id]? = some st → st.stage = .greeted →
      Takes o s (.register id) (s.registers id st)
  | adopt {id : Nat} {st : Stream} {ref : Ref} {rest : List Ref} : s.streams[id]? = some st →
      st.stage = .registered (ref :: rest) → Takes o s (.adopt id) ((s.adopts st.worker ref).become id (.registered rest))
  | persist {id : Nat} {st : Stream} (now : Time) : s.streams[id]? = some st → st.stage = .registered [] →
      Takes o s (.persist id now true) ((s.upserts st.worker st.row now).become id .persisted)
  | persistFails {id : Nat} {st : Stream} (now : Time) : s.streams[id]? = some st → st.stage = .registered [] →
      Takes o s (.persist id now false) (s.become id .persisted)
  | acknowledge {id : Nat} {st : Stream} : s.streams[id]? = some st → st.stage = .persisted →
      Takes o s (.acknowledge id true) (s.become id .reading)
  | acknowledgeFails {id : Nat} {st : Stream} : s.streams[id]? = some st → st.stage = .persisted →
      Takes o s (.acknowledge id false) ((s.evict id).become id .ended)
  | heartbeat {id : Nat} {st : Stream} (now : Time) : s.streams[id]? = some st → st.stage = .reading →
      Takes o s (.receive id now .heartbeat)
        ((s.onStream id (Stream.touch now)).updates st.worker .online (some now))
  | taskEvent {id object : Nat} {st : Stream} {a : Assignment} (now : Time) (ev : Event) : s.streams[id]? = some st →
      st.stage = .reading → s.lookup ev.ref = some object → s.assignments[object]? = some a → a.worker = st.worker →
      Takes o s (.receive id now (.taskEvent ev))
        ((s.onStream id (Stream.touch now)).become id (.recording ev object))
  | receive {id : Nat} {st : Stream} (now : Time) (m : Message) : s.streams[id]? = some st → st.stage = .reading →
      Takes o s (.receive id now m) (s.onStream id (Stream.touch now))
  | record {id object : Nat} {st : Stream} {a : Assignment} {ev : Event} (now : Time) : s.streams[id]? = some st →
      st.stage = .recording ev object → s.assignments[object]? = some a →
      Takes o s (.record id now) ((s.records st.worker ev object a now).become id .reading)
  | hangUp {id : Nat} {st : Stream} : s.streams[id]? = some st → st.stage = .reading →
      Takes o s (.hangUp id) (s.become id .leaving)
  | dropSession {id : Nat} {st : Stream} : s.streams[id]? = some st → st.stage = .leaving →
      Takes o s (.dropSession id) ((s.evict id).become id .dropped)
  | goodbye {id : Nat} {st : Stream} : s.streams[id]? = some st → st.stage = .dropped →
      Takes o s (.goodbye id) ((s.updates st.worker .offline none).become id .ended)
  | write (id : Nat) : Takes o s (.write id) (s.onStream id Stream.deliver)
  | sweep (now : Time) : s.sweeping = none → Takes o s (.sweep now) (s.sweeps o now)
  | inspect {w : WorkerID} {ok : Bool} {sw : Sweep} : s.sweeping = some sw → Takes o s (.inspect w ok) { s with
      sweeping := some { sw with
        candidates := sw.candidates.filter (· ≠ w)
        silent := if w ∈ sw.stale ∨ s.silentTooLong o sw.now w ok then w :: sw.silent else sw.silent } }
  | markLost {sw : Sweep} : s.sweeping = some sw → Takes o s .markLost (s.marksLost sw.stale sw.silent)
  | setWorkerDraining {w : WorkerID} {row : Row} (draining : Bool) : s.rows w = some row →
      Takes o s (.setWorkerDraining w draining) { s with
        rows := Function.update s.rows w (some { row with draining })
        drains := s.drains ++ [(w, draining)] }
  | setDraining {w : WorkerID} {draining : Bool} : (w, draining) ∈ s.drains →
      Takes o s (.setDraining w draining)
        { (s.onCurrent w (Stream.drain draining)) with drains := s.drains.erase (w, draining) }
  | deleteWorker {w : WorkerID} {row : Row} : s.rows w = some row → Takes o s (.deleteWorker w) { s with
      rows := Function.update s.rows w none
      removals := s.removals ++ [w]
      removed := Function.update s.removed w true }
  | disconnect {w : WorkerID} : w ∈ s.removals →
      Takes o s (.disconnect w) { (s.disconnects w) with removals := s.removals.erase w }
  | relaunch {group : String} {ref : Ref} {best : Nat} : Takes o s (.launch group ref best) s
  | launch {group : String} {ref : Ref} {best : Nat} {st : Stream} : s.streams[best]? = some st →
      s.LeastLoaded group best = true →
      (∀ object a, s.lookup ref = some object → s.assignments[object]? = some a → a.lost = true ∨ a.phase = .unknown) →
      Takes o s (.launch group ref best) (s.assigns ref best st)
  | forget {ref : Ref} {object : Nat} {a : Assignment} : s.lookup ref = some object → s.assignments[object]? = some a →
      a.phase ≠ .running → Takes o s (.forget ref) (s.untracks ref)
  | remembers {ref : Ref} : Takes o s (.forget ref) s

theorem step_takes {o : Options} {s t : State} {label : Step} (stepped : step o s label = some t) : Takes o s label t := by
  cases label with
  | enroll w =>
    simp only [step] at stepped
    split at stepped <;> cases stepped
    next fresh => exact .enroll fresh
  | hello w group known now =>
    obtain ⟨row, found, rfl⟩ := Option.map_eq_some_iff.mp stepped
    exact .hello group known now found
  | register id =>
    simp only [step] at stepped
    split at stepped
    next st found =>
      split at stepped <;> cases stepped
      next greeted => exact .register found greeted
    · cases stepped
  | adopt id =>
    simp only [step] at stepped
    split at stepped
    next st found =>
      split at stepped <;> cases stepped
      next ref rest registered => exact .adopt found registered
    · cases stepped
  | persist id now ok =>
    simp only [step] at stepped
    split at stepped
    next st found =>
      split at stepped <;> cases stepped
      next registered =>
        cases ok with
        | true => exact .persist now found registered
        | false => exact .persistFails now found registered
    · cases stepped
  | acknowledge id ok =>
    simp only [step] at stepped
    split at stepped
    next st found =>
      split at stepped <;> cases stepped
      next persisted =>
        cases ok with
        | true => exact .acknowledge found persisted
        | false => exact .acknowledgeFails found persisted
    · cases stepped
  | receive id now m =>
    simp only [step] at stepped
    split at stepped
    next st found =>
      split at stepped
      next reading =>
        cases m with
        | heartbeat =>
          cases stepped
          exact .heartbeat now found reading
        | logChunk =>
          cases stepped
          exact .receive now .logChunk found reading
        | taskEvent ev =>
          dsimp only at stepped
          split at stepped
          next object known =>
            split at stepped <;> cases stepped
            next own =>
              obtain ⟨a, entry, worker⟩ := (Option.any_eq_true _ _).mp own
              exact .taskEvent now ev found reading known entry (by simpa using worker)
            next => exact .receive now (.taskEvent ev) found reading
          next =>
            cases stepped
            exact .receive now (.taskEvent ev) found reading
      next => cases stepped
    · cases stepped
  | record id now =>
    simp only [step] at stepped
    split at stepped
    next st found =>
      split at stepped
      next ev object recording =>
        obtain ⟨a, entry, rfl⟩ := Option.map_eq_some_iff.mp stepped
        exact .record now found recording entry
      next => cases stepped
    · cases stepped
  | hangUp id =>
    simp only [step] at stepped
    split at stepped
    next st found =>
      split at stepped <;> cases stepped
      next reading => exact .hangUp found reading
    · cases stepped
  | dropSession id =>
    simp only [step] at stepped
    split at stepped
    next st found =>
      split at stepped <;> cases stepped
      next leaving => exact .dropSession found leaving
    · cases stepped
  | goodbye id =>
    simp only [step] at stepped
    split at stepped
    next st found =>
      split at stepped <;> cases stepped
      next dropped => exact .goodbye found dropped
    · cases stepped
  | write id =>
    cases stepped
    exact .write id
  | sweep now =>
    simp only [step] at stepped
    split at stepped <;> cases stepped
    next idle => exact .sweep now idle
  | inspect w ok =>
    simp only [step] at stepped
    split at stepped
    next sw sweeping =>
      split at stepped <;> cases stepped
      exact .inspect sweeping
    · cases stepped
  | markLost =>
    simp only [step] at stepped
    split at stepped
    next sw sweeping =>
      split at stepped <;> cases stepped
      exact .markLost sweeping
    · cases stepped
  | setWorkerDraining w draining =>
    obtain ⟨row, found, rfl⟩ := Option.map_eq_some_iff.mp stepped
    exact .setWorkerDraining draining found
  | setDraining w draining =>
    simp only [step] at stepped
    split at stepped <;> cases stepped
    next pending => exact .setDraining pending
  | deleteWorker w =>
    obtain ⟨row, found, rfl⟩ := Option.map_eq_some_iff.mp stepped
    exact .deleteWorker found
  | disconnect w =>
    simp only [step] at stepped
    split at stepped <;> cases stepped
    next pending => exact .disconnect pending
  | launch group ref best =>
    simp only [step] at stepped
    split at stepped
    · cases stepped
      exact .relaunch
    next fresh =>
      split at stepped
      next st found =>
        split at stepped <;> cases stepped
        next least =>
          refine .launch found least fun object a known entry => ?_
          simp only [known, Option.bind_some, entry, Option.any_some] at fresh
          by_contra! neither
          simp [neither] at fresh
      next => cases stepped
  | forget ref =>
    simp only [step] at stepped
    split at stepped <;> cases stepped
    next ended =>
      obtain ⟨a, entry, other⟩ := (Option.any_eq_true _ _).mp ended
      obtain ⟨object, known, entry⟩ := Option.bind_eq_some_iff.mp entry
      exact .forget known entry (by simpa using other)
    next => exact .remembers

/-! ### The map and the channels -/

namespace State

variable {s t : State} {id other : Nat} {w : WorkerID} {st : Stream} {f : Stream → Stream}

theorem onStream_get (s : State) (id other : Nat) (f : Stream → Stream) :
    (s.onStream id f).streams[other]? = (s.streams[other]?).map fun st => if id = other then f st else st := by
  simp only [onStream, List.getElem?_modify]
  split <;> simp

@[simp] theorem onStream_sessions (s : State) (id : Nat) (f : Stream → Stream) : (s.onStream id f).sessions = s.sessions := rfl

theorem evict_absent (absent : s.streams[id]? = none) : s.evict id = s := by
  simp only [evict, absent]

theorem evict_live (found : s.streams[id]? = some st) (live : s.sessions st.worker = some id) :
    s.evict id = { s.onStream id (fun st => { st with closes := st.closes + 1 }) with
      sessions := Function.update s.sessions st.worker none } := by
  simp only [evict, found, live, if_true]

theorem evict_dead (found : s.streams[id]? = some st) (dead : s.sessions st.worker ≠ some id) : s.evict id = s := by
  simp only [evict, found, if_neg dead]

theorem evict_sub {other : Nat} (live : (s.evict id).sessions w = some other) : s.sessions w = some other := by
  cases found : s.streams[id]? with
  | none => rwa [evict_absent found] at live
  | some st =>
    by_cases held : s.sessions st.worker = some id
    · rw [evict_live found held] at live
      by_cases here : w = st.worker
      · simp [here] at live
      · simpa [here] using live
    · rwa [evict_dead found held] at live

theorem evicts_sub {ids : List Nat} {other : Nat} (live : (ids.foldl evict s).sessions w = some other) :
    s.sessions w = some other := by
  induction ids generalizing s with
  | nil => exact live
  | cons id rest ih => exact evict_sub (ih live)

theorem disconnects_sub {v : WorkerID} {other : Nat} (live : (s.disconnects v).sessions w = some other) :
    s.sessions w = some other := by
  unfold disconnects at live
  split at live
  · exact evict_sub live
  · exact live

/-- Apart from the channel a stream does not notice. -/
theorem evict_get (s : State) (id other : Nat) :
    ∃ g : Stream → Nat, (s.evict id).streams[other]? = (s.streams[other]?).map fun st => { st with closes := g st } := by
  cases found : s.streams[id]? with
  | none => exact ⟨Stream.closes, by simp [evict_absent found]⟩
  | some st =>
    by_cases live : s.sessions st.worker = some id
    · refine ⟨fun st => if id = other then st.closes + 1 else st.closes, ?_⟩
      rw [evict_live found live]
      simp only [onStream_get]
      congr 1
      funext st
      split <;> rfl
    · exact ⟨Stream.closes, by simp [evict_dead found live]⟩

theorem disconnects_get (s : State) (w : WorkerID) (other : Nat) :
    ∃ g : Stream → Nat, (s.disconnects w).streams[other]? = (s.streams[other]?).map fun st => { st with closes := g st } := by
  unfold disconnects
  cases s.sessions w with
  | none => exact ⟨Stream.closes, by simp⟩
  | some id => exact s.evict_get id other

end State

/-- What the routing and the console see of a stream. -/
structure Seat where
  worker : WorkerID
  stage : Stage
  draining : Bool
  deriving Repr, DecidableEq

def Stream.seat (st : Stream) : Seat := ⟨st.worker, st.stage, st.draining⟩

namespace State

variable {s : State} {id : Nat} {st : Stream} {f : Stream → Stream}

def seat (s : State) (id : Nat) : Option Seat := (s.streams[id]?).map Stream.seat

theorem seat_of_get (found : s.streams[id]? = some st) : s.seat id = some st.seat := by
  simp [seat, found]

theorem seat_greets (s : State) (w : WorkerID) (group : String) (known : List Ref) (row : Row) (now : Time) (other : Nat) :
    (s.greets w group known row now).seat other =
      if other = s.streams.length then some ⟨w, .greeted, row.draining⟩ else s.seat other := by
  simp only [seat, greets, List.getElem?_append, List.getElem?_singleton]
  by_cases old : other < s.streams.length
  · simp [old, Nat.ne_of_lt old]
  · by_cases new : other = s.streams.length
    · simp [new, Stream.seat]
    · have past : other - s.streams.length ≠ 0 := by omega
      simp [old, new, past]

theorem seat_onStream (same : ∀ st, (f st).seat = st.seat) (other : Nat) : (s.onStream id f).seat other = s.seat other := by
  simp only [seat, onStream_get, Option.map_map]
  congr 1
  funext st
  by_cases here : id = other <;> simp [here, same]

theorem seat_become (s : State) (id : Nat) (stage : Stage) (other : Nat) :
    (s.become id stage).seat other = (s.seat other).map fun p => if id = other then { p with stage } else p := by
  simp only [seat, become, onStream_get, Option.map_map]
  congr 1
  funext st
  by_cases here : id = other <;> simp [here, Stream.seat]

theorem seat_onCurrent (same : ∀ st, (f st).seat = st.seat) (w : WorkerID) (other : Nat) :
    (s.onCurrent w f).seat other = s.seat other := by
  unfold onCurrent
  cases s.sessions w with
  | none => rfl
  | some id => exact seat_onStream same other

theorem seat_drain (s : State) (w : WorkerID) (draining : Bool) (other : Nat) :
    (s.onCurrent w (Stream.drain draining)).seat other =
      (s.seat other).map fun p => if s.sessions w = some other then { p with draining } else p := by
  unfold onCurrent
  cases s.sessions w with
  | none => simp
  | some id =>
    simp only [seat, onStream_get, Option.map_map, Option.some.injEq]
    congr 1
    funext st
    by_cases here : id = other <;> simp [here, Stream.seat, Stream.drain]

@[simp] theorem seat_touch (s : State) (id : Nat) (now : Time) (other : Nat) :
    (s.onStream id (Stream.touch now)).seat other = s.seat other :=
  seat_onStream (f := Stream.touch now) (fun _ => rfl) other

@[simp] theorem seat_evict (s : State) (id other : Nat) : (s.evict id).seat other = s.seat other := by
  obtain ⟨g, same⟩ := s.evict_get id other
  simp only [seat, same, Option.map_map]
  rfl

@[simp] theorem seat_evicts (ids : List Nat) (s : State) (other : Nat) : (ids.foldl evict s).seat other = s.seat other := by
  induction ids generalizing s with
  | nil => rfl
  | cons id rest ih => rw [List.foldl_cons, ih, seat_evict]

@[simp] theorem seat_disconnects (s : State) (w : WorkerID) (other : Nat) : (s.disconnects w).seat other = s.seat other := by
  obtain ⟨g, same⟩ := s.disconnects_get w other
  simp only [seat, same, Option.map_map]
  rfl

theorem seat_registers (s : State) (id : Nat) (st : Stream) :
    ∃ orphans, ∀ other, (s.registers id st).seat other =
      (s.seat other).map fun p => if id = other then { p with stage := .registered orphans } else p := by
  refine ⟨st.known.filter fun ref => ((s.disconnects st.worker).lookup ref).isNone, fun other => ?_⟩
  rw [← s.seat_disconnects st.worker other]
  simp only [seat, registers, onStream_get, Option.map_map]
  congr 1
  funext before
  by_cases here : id = other <;> simp [here, Stream.seat]

@[simp] theorem seat_adopts (s : State) (w : WorkerID) (ref : Ref) (other : Nat) :
    (s.adopts w ref).seat other = s.seat other := by
  unfold adopts
  split
  · rfl
  · exact seat_onCurrent (f := Stream.gain) (fun _ => rfl) w other

@[simp] theorem seat_records (s : State) (w : WorkerID) (ev : Event) (object : Nat) (a : Assignment) (now : Time)
    (other : Nat) : (s.records w ev object a now).seat other = s.seat other := by
  unfold records
  split
  · exact seat_onCurrent (f := Stream.release) (fun _ => rfl) w other
  · rfl

@[simp] theorem seat_untracks (s : State) (ref : Ref) (other : Nat) : (s.untracks ref).seat other = s.seat other := by
  unfold untracks
  split <;> rfl

@[simp] theorem seat_assigns (s : State) (ref : Ref) (best : Nat) (st : Stream) (other : Nat) :
    (s.assigns ref best st).seat other = s.seat other := by
  unfold assigns
  dsimp only
  split
  · exact (seat_onStream (f := Stream.accept) (fun _ => rfl) other).trans (seat_untracks s ref other)
  · exact seat_untracks s ref other

@[simp] theorem seat_sweeps (s : State) (o : Options) (now : Time) (other : Nat) : (s.sweeps o now).seat other = s.seat other :=
  seat_evicts _ s other

/-- What belongs to the console: the rows and the calls that work on them. -/
structure Desk where
  rows : WorkerID → Option Row
  drains : List (WorkerID × Bool)
  removals : List WorkerID
  removed : WorkerID → Bool
  enrolled : List WorkerID

def desk (s : State) : Desk := ⟨s.rows, s.drains, s.removals, s.removed, s.enrolled⟩

@[simp] theorem desk_become (s : State) (id : Nat) (stage : Stage) : (s.become id stage).desk = s.desk := rfl

@[simp] theorem desk_onCurrent (s : State) (w : WorkerID) (f : Stream → Stream) : (s.onCurrent w f).desk = s.desk := by
  unfold onCurrent
  split <;> rfl

@[simp] theorem desk_evict (s : State) (id : Nat) : (s.evict id).desk = s.desk := by
  unfold evict
  split
  · split <;> rfl
  · rfl

@[simp] theorem desk_evicts (ids : List Nat) (s : State) : (ids.foldl evict s).desk = s.desk := by
  induction ids generalizing s with
  | nil => rfl
  | cons id rest ih => rw [List.foldl_cons, ih, desk_evict]

@[simp] theorem desk_disconnects (s : State) (w : WorkerID) : (s.disconnects w).desk = s.desk := by
  unfold disconnects
  split
  · exact desk_evict s _
  · rfl

@[simp] theorem desk_registers (s : State) (id : Nat) (st : Stream) : (s.registers id st).desk = s.desk :=
  desk_disconnects s st.worker

@[simp] theorem desk_adopts (s : State) (w : WorkerID) (ref : Ref) : (s.adopts w ref).desk = s.desk := by
  unfold adopts
  split
  · rfl
  · exact desk_onCurrent _ w _

@[simp] theorem desk_records (s : State) (w : WorkerID) (ev : Event) (object : Nat) (a : Assignment) (now : Time) :
    (s.records w ev object a now).desk = s.desk := by
  unfold records
  split
  · exact desk_onCurrent s w _
  · rfl

@[simp] theorem desk_untracks (s : State) (ref : Ref) : (s.untracks ref).desk = s.desk := by
  unfold untracks
  split <;> rfl

@[simp] theorem desk_assigns (s : State) (ref : Ref) (best : Nat) (st : Stream) : (s.assigns ref best st).desk = s.desk := by
  unfold assigns
  dsimp only
  split <;> exact desk_untracks s ref

@[simp] theorem desk_sweeps (s : State) (o : Options) (now : Time) : (s.sweeps o now).desk = s.desk :=
  desk_evicts _ s

@[simp] theorem become_sessions (s : State) (id : Nat) (stage : Stage) : (s.become id stage).sessions = s.sessions := rfl

@[simp] theorem onCurrent_sessions (s : State) (w : WorkerID) (f : Stream → Stream) :
    (s.onCurrent w f).sessions = s.sessions := by
  unfold onCurrent
  split <;> rfl

@[simp] theorem adopts_sessions (s : State) (w : WorkerID) (ref : Ref) : (s.adopts w ref).sessions = s.sessions := by
  unfold adopts
  split
  · rfl
  · exact onCurrent_sessions _ w _

@[simp] theorem records_sessions (s : State) (w : WorkerID) (ev : Event) (object : Nat) (a : Assignment) (now : Time) :
    (s.records w ev object a now).sessions = s.sessions := by
  unfold records
  split
  · exact onCurrent_sessions s w _
  · rfl

@[simp] theorem untracks_sessions (s : State) (ref : Ref) : (s.untracks ref).sessions = s.sessions := by
  unfold untracks
  split <;> rfl

@[simp] theorem assigns_sessions (s : State) (ref : Ref) (best : Nat) (st : Stream) :
    (s.assigns ref best st).sessions = s.sessions := by
  unfold assigns
  dsimp only
  split <;> exact untracks_sessions s ref

end State

namespace Step

/-- The steps that may change `hub.sessions`. -/
def rewires : Step → Bool
  | .register _ | .acknowledge _ false | .dropSession _ | .sweep _ | .disconnect _ => true
  | _ => false

/-- The steps that may change the rows or belong to a call of the console. -/
def clerical : Step → Bool
  | .enroll _ | .persist _ _ true | .receive _ _ .heartbeat | .goodbye _ | .markLost | .setWorkerDraining _ _
  | .setDraining _ _ | .deleteWorker _ | .disconnect _ => true
  | _ => false

end Step

theorem Takes.sessions {o : Options} {s t : State} {label : Step} (taken : Takes o s label t)
    (still : label.rewires = false) : t.sessions = s.sessions := by
  cases taken with
  | register | acknowledgeFails | dropSession | sweep | disconnect => cases still
  | adopt => exact s.adopts_sessions _ _
  | @record _ object st a ev now => exact s.records_sessions st.worker ev object a now
  | setDraining => exact s.onCurrent_sessions _ _
  | launch => exact s.assigns_sessions _ _ _
  | forget => exact s.untracks_sessions _
  | _ => rfl

theorem Takes.desk {o : Options} {s t : State} {label : Step} (taken : Takes o s label t)
    (still : label.clerical = false) : t.desk = s.desk := by
  cases taken with
  | enroll | persist | heartbeat | goodbye | markLost | setWorkerDraining | setDraining | deleteWorker | disconnect => cases still
  | register => exact s.desk_registers _ _
  | adopt => exact s.desk_adopts _ _
  | acknowledgeFails => exact s.desk_evict _
  | @record _ object st a ev now => exact s.desk_records st.worker ev object a now
  | dropSession => exact s.desk_evict _
  | sweep now => exact s.desk_sweeps o now
  | launch => exact s.desk_assigns _ _ _
  | forget => exact s.desk_untracks _
  | _ => rfl

/-- The sessions of the map are sessions of their workers; a channel is open before the session
enters the map and while it is there, and was closed once otherwise. -/
structure Wired (s : State) : Prop where
  held : ∀ w id, s.sessions w = some id → ∃ st, s.streams[id]? = some st ∧ st.worker = w ∧ st.stage ≠ .greeted
  closed : ∀ id st, s.streams[id]? = some st →
    st.closes = if st.stage = .greeted ∨ s.sessions st.worker = some id then 0 else 1

namespace Wired

variable {s t : State} {id : Nat} {w : WorkerID} {st : Stream} {f : Stream → Stream}

theorem congr (wired : Wired s) (streams : t.streams = s.streams) (sessions : t.sessions = s.sessions) : Wired t := by
  constructor
  · intro w id live
    rw [streams]
    exact wired.held w id (sessions ▸ live)
  · intro id st found
    rw [sessions]
    exact wired.closed id st (streams ▸ found)

/-- A handler moves on, or a counter changes. -/
theorem onStream (wired : Wired s)
    (same : ∀ st, s.streams[id]? = some st →
      (f st).worker = st.worker ∧ (f st).closes = st.closes ∧ ((f st).stage = .greeted ↔ st.stage = .greeted)) :
    Wired (s.onStream id f) := by
  constructor
  · intro w other live
    obtain ⟨st, found, worker, stage⟩ := wired.held w other live
    rw [State.onStream_get, found]
    by_cases here : id = other
    · subst here
      obtain ⟨sameWorker, -, sameStage⟩ := same st found
      exact ⟨f st, by simp, sameWorker.trans worker, fun h => stage (sameStage.mp h)⟩
    · exact ⟨st, by simp [here], worker, stage⟩
  · intro other st found
    rw [State.onStream_get] at found
    obtain ⟨before, was, rfl⟩ := Option.map_eq_some_iff.mp found
    have closed := wired.closed other before was
    by_cases here : id = other
    · subst here
      obtain ⟨sameWorker, sameCloses, sameStage⟩ := same before was
      simp only [if_true, sameCloses, sameStage, sameWorker]
      exact closed
    · simpa only [if_neg here, State.onStream_sessions] using closed

theorem become (wired : Wired s) {p : Seat} (seated : s.seat id = some p) {stage : Stage} (past : p.stage ≠ .greeted)
    (stays : stage ≠ .greeted) : Wired (s.become id stage) := by
  refine wired.onStream fun st found => ?_
  cases (State.seat_of_get found).symm.trans seated
  exact ⟨rfl, rfl, iff_of_false stays past⟩

theorem onCurrent (wired : Wired s)
    (same : ∀ st, (f st).worker = st.worker ∧ (f st).closes = st.closes ∧ (f st).stage = st.stage) :
    Wired (s.onCurrent w f) := by
  unfold State.onCurrent
  cases live : s.sessions w with
  | none => exact wired
  | some id =>
    refine wired.onStream fun st _ => ?_
    obtain ⟨worker, closes, stage⟩ := same st
    exact ⟨worker, closes, by rw [stage]⟩

theorem evict (wired : Wired s) (id : Nat) : Wired (s.evict id) := by
  cases found : s.streams[id]? with
  | none => rwa [State.evict_absent found]
  | some st =>
    by_cases live : s.sessions st.worker = some id
    · rw [State.evict_live found live]
      obtain ⟨_, same, -, past⟩ := wired.held _ _ live
      cases found.symm.trans same
      constructor
      · intro w other held
        by_cases here : w = st.worker
        · simp [here] at held
        · simp only [Function.update_of_ne here] at held
          obtain ⟨st', found', worker', stage'⟩ := wired.held w other held
          have apart : id ≠ other := by
            rintro rfl
            cases found.symm.trans found'
            exact here worker'.symm
          exact ⟨st', by simp only [State.onStream_get, if_neg apart, found', Option.map_some], worker', stage'⟩
      · intro other st' found'
        simp only [State.onStream_get] at found'
        obtain ⟨before, was, rfl⟩ := Option.map_eq_some_iff.mp found'
        have closed := wired.closed other before was
        by_cases here : id = other
        · subst here
          cases found.symm.trans was
          -- the one close: the channel was open, and the session leaves the map
          simp only [live, or_true, if_true] at closed
          simp [closed, past]
        · simp only [if_neg here]
          rw [closed]
          by_cases sameWorker : before.worker = st.worker
          · have elsewhere : s.sessions st.worker ≠ some other := by
              rw [live]
              simpa using here
            simp [elsewhere, sameWorker]
          · simp [Function.update_of_ne sameWorker]
    · rwa [State.evict_dead found live]

theorem disconnects (wired : Wired s) (w : WorkerID) : Wired (s.disconnects w) := by
  unfold State.disconnects
  cases s.sessions w with
  | none => exact wired
  | some id => exact wired.evict id

theorem disconnects_sessions (wired : Wired s) (w : WorkerID) :
    (s.disconnects w).sessions = Function.update s.sessions w none := by
  unfold State.disconnects
  cases live : s.sessions w with
  | none => simp [← live]
  | some id =>
    obtain ⟨st, found, rfl, -⟩ := wired.held w id live
    simp only [State.evict_live found live]

theorem registers_sessions (wired : Wired s) (id : Nat) (st : Stream) :
    (s.registers id st).sessions = Function.update s.sessions st.worker (some id) := by
  simp only [State.registers, wired.disconnects_sessions, Function.update_idem]

theorem registers (wired : Wired s) (found : s.streams[id]? = some st) (greeted : st.stage = .greeted) :
    Wired (s.registers id st) := by
  have after := wired.disconnects st.worker
  have gone := wired.disconnects_sessions st.worker
  obtain ⟨g, kept⟩ := s.disconnects_get st.worker id
  rw [found, Option.map_some] at kept
  constructor
  · intro w other live
    simp only [State.registers, State.onStream_get] at live ⊢
    by_cases here : w = st.worker
    · subst here
      rw [Function.update_self] at live
      cases live
      rw [kept]
      simp only [Option.map_some, if_true]
      exact ⟨_, rfl, rfl, by simp⟩
    · rw [Function.update_of_ne here] at live
      obtain ⟨st', found', worker', stage'⟩ := after.held w other live
      have apart : id ≠ other := by
        rintro rfl
        cases kept.symm.trans found'
        exact here worker'.symm
      exact ⟨st', by simp [found', apart], worker', stage'⟩
  · intro other st' found'
    simp only [State.registers, State.onStream_get] at found'
    obtain ⟨before, was, rfl⟩ := Option.map_eq_some_iff.mp found'
    have closed := after.closed other before was
    by_cases here : id = other
    · subst here
      cases kept.symm.trans was
      simp only [greeted, true_or, if_true] at closed
      simp [State.registers, closed]
    · simp only [if_neg here, State.registers]
      rw [closed]
      by_cases sameWorker : before.worker = st.worker
      · simp [sameWorker, gone, here]
      · simp [Function.update_of_ne sameWorker]

theorem evicts (wired : Wired s) (ids : List Nat) : Wired (ids.foldl State.evict s) := by
  induction ids generalizing s with
  | nil => exact wired
  | cons id rest ih => exact ih (wired.evict id)

theorem append (wired : Wired s) {streams : List Stream} (same : t.streams = s.streams ++ streams)
    (sessions : t.sessions = s.sessions) (fresh : ∀ st ∈ streams, st.stage = .greeted ∧ st.closes = 0) : Wired t := by
  constructor
  · intro w id live
    obtain ⟨st, found, facts⟩ := wired.held w id (sessions ▸ live)
    refine ⟨st, ?_, facts⟩
    rw [same, List.getElem?_append_left (List.getElem?_eq_some_iff.mp found).1]
    exact found
  · intro id st found
    rw [same] at found
    rw [sessions]
    by_cases old : id < s.streams.length
    · rw [List.getElem?_append_left old] at found
      exact wired.closed id st found
    · rw [List.getElem?_append_right (Nat.le_of_not_lt old)] at found
      obtain ⟨stage, closes⟩ := fresh st (List.mem_of_getElem? found)
      simp [stage, closes]

theorem adopts (wired : Wired s) (w : WorkerID) (ref : Ref) : Wired (s.adopts w ref) := by
  unfold State.adopts
  split
  · exact wired
  · exact Wired.onCurrent (wired.congr rfl rfl) fun _ => ⟨rfl, rfl, rfl⟩

theorem records (wired : Wired s) (w : WorkerID) (ev : Event) (object : Nat) (a : Assignment) (now : Time) :
    Wired (s.records w ev object a now) := by
  have counted : Wired (if a.released ev then s.onCurrent w Stream.release else s) := by
    split
    · exact wired.onCurrent fun _ => ⟨rfl, rfl, rfl⟩
    · exact wired
  exact counted.congr rfl rfl

theorem untracks (wired : Wired s) (ref : Ref) : Wired (s.untracks ref) := by
  unfold State.untracks
  split
  · exact wired.congr rfl rfl
  · exact wired

theorem assigns (wired : Wired s) (ref : Ref) (best : Nat) (st : Stream) : Wired (s.assigns ref best st) := by
  have cleared := wired.untracks ref
  unfold State.assigns
  dsimp only
  split
  · have counted : Wired ((s.untracks ref).onStream best Stream.accept) := cleared.onStream fun _ _ => ⟨rfl, rfl, Iff.rfl⟩
    exact counted.congr rfl rfl
  · exact cleared.congr rfl rfl

theorem boot (table : List (WorkerID × Row)) : Wired (boot table) := by
  constructor
  · intro w id live
    cases live
  · intro id st found
    cases found

theorem takes {o : Options} {label : Step} (wired : Wired s) (taken : Takes o s label t) : Wired t := by
  cases taken with
  | hello group known now _ => exact wired.append rfl rfl (by simp)
  | register found greeted => exact wired.registers found greeted
  | adopt found registered =>
    exact (wired.adopts _ _).become ((State.seat_adopts ..).trans (State.seat_of_get found)) (by simp [Stream.seat, registered]) (by simp)
  | @persist _ st now found registered =>
    have written : Wired (s.upserts st.worker st.row now) := wired.congr rfl rfl
    exact written.become (State.seat_of_get found) (by simp [Stream.seat, registered]) (by simp)
  | persistFails now found registered => exact wired.become (State.seat_of_get found) (by simp [Stream.seat, registered]) (by simp)
  | acknowledge found persisted => exact wired.become (State.seat_of_get found) (by simp [Stream.seat, persisted]) (by simp)
  | acknowledgeFails found persisted =>
    exact (wired.evict _).become ((State.seat_evict ..).trans (State.seat_of_get found)) (by simp [Stream.seat, persisted]) (by simp)
  | heartbeat now found reading => exact (wired.onStream (f := Stream.touch now) fun _ _ => ⟨rfl, rfl, Iff.rfl⟩).congr rfl rfl
  | @taskEvent id _ _ _ now ev found reading known entry worker =>
    have touched : Wired (s.onStream id (Stream.touch now)) := wired.onStream fun _ _ => ⟨rfl, rfl, Iff.rfl⟩
    refine touched.become ((State.seat_touch ..).trans (State.seat_of_get found)) ?_ (by simp)
    simp [Stream.seat, reading]
  | receive now m found reading => exact wired.onStream fun _ _ => ⟨rfl, rfl, Iff.rfl⟩
  | record now found recording entry =>
    exact (wired.records ..).become ((State.seat_records ..).trans (State.seat_of_get found)) (by simp [Stream.seat, recording]) (by simp)
  | hangUp found reading => exact wired.become (State.seat_of_get found) (by simp [Stream.seat, reading]) (by simp)
  | dropSession found leaving =>
    exact (wired.evict _).become ((State.seat_evict ..).trans (State.seat_of_get found)) (by simp [Stream.seat, leaving]) (by simp)
  | @goodbye _ st found dropped =>
    have written : Wired (s.updates st.worker .offline none) := wired.congr rfl rfl
    exact written.become (State.seat_of_get found) (by simp [Stream.seat, dropped]) (by simp)
  | write id => exact wired.onStream fun _ _ => ⟨rfl, rfl, Iff.rfl⟩
  | sweep now idle => exact (wired.evicts _).congr rfl rfl
  | setDraining pending => exact (wired.onCurrent (f := Stream.drain _) fun _ => ⟨rfl, rfl, rfl⟩).congr rfl rfl
  | disconnect pending => exact (wired.disconnects _).congr rfl rfl
  | relaunch => exact wired
  | launch found least _ => exact wired.assigns _ _ _
  | forget => exact wired.untracks _
  | remembers => exact wired
  | _ => exact wired.congr rfl rfl

theorem reached {o : Options} {table : List (WorkerID × Row)} (reached : Reached o table s) : Wired s :=
  reached.invariant (boot table) fun _ _ _ wired _ stepped => wired.takes (step_takes stepped)

end Wired

/-- The channel of a session is closed at most once, and exactly when the session has been in the
map and is not there any more. -/
theorem done_closed_once {o : Options} {table : List (WorkerID × Row)} {s : State} (reached : Reached o table s)
    {id : Nat} {st : Stream} (found : s.streams[id]? = some st) :
    st.closes ≤ 1 ∧ (st.closes = 1 ↔ st.stage ≠ .greeted ∧ s.sessions st.worker ≠ some id) := by
  rw [(Wired.reached reached).closed id st found]
  by_cases early : st.stage = .greeted
  · simp [early]
  · by_cases live : s.sessions st.worker = some id <;> simp [early, live]

/-- A worker that reconnects while the hub still serves its first stream, and is removed. -/
def reconnected : List Step :=
  [.hello "wk_1" "default" [] 0, .register 0, .persist 0 0 true, .acknowledge 0 true,
    .hello "wk_1" "default" [] 5, .register 1, .persist 1 5 true, .acknowledge 1 true,
    .hangUp 0, .dropSession 0, .goodbye 0, .deleteWorker "wk_1", .disconnect "wk_1", .hangUp 1, .dropSession 1]

theorem done_closed_once_reconnected :
    ∃ s, runSteps (step {}) (boot [("wk_1", {})]) reconnected = some s ∧ s.streams.length = 2 ∧
      ∀ (id : Nat) (st : Stream), s.streams[id]? = some st → st.closes ≤ 1 ∧
        (st.closes = 1 ↔ st.stage ≠ .greeted ∧ s.sessions st.worker ≠ some id) := by
  have ran : (runSteps (step {}) (boot [("wk_1", {})]) reconnected).isSome := by decide +kernel
  obtain ⟨s, ran⟩ := Option.isSome_iff_exists.mp ran
  refine ⟨s, ran, ?_, fun id st found => ?_⟩
  · have counted : (runSteps (step {}) (boot [("wk_1", {})]) reconnected).map (·.streams.length) = some 2 := by decide +kernel
    simpa [ran] using counted
  · exact done_closed_once ((eachStep_true reconnected _).reach ran) found

end Cronova.Worker.Hub
