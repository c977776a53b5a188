import Cronova.Process.Reach
import Cronova.Worker.Protocol

/-! A worker and its hub, message by message.

A message in flight may be delivered at any time, in any order, or be lost with its session.
The goroutines of the worker are its exit watchers, one for each attempt, and its log pumps, of
which a new session starts another set; a restart of the process ends them all.
-/

set_option autoImplicit false

namespace Cronova.Worker

open Process

/-- `watchExit`, between its polls and after it has noted the exit. -/
inductive Watch where
  | polling
  | noted (seen : Phase) (tracked : Bool)
  deriving Repr, DecidableEq

inductive Up where
  | event (ev : TaskEvent)
  | chunk (c : LogChunk)
  deriving Repr, DecidableEq

inductive Down where
  | probe (ref : Ref)
  | ack (a : LogAck)
  deriving Repr, DecidableEq

/-- What `Runner.Launch` comes to, with the lines that it writes to the log first. -/
inductive Launching where
  | noLog
  | failed (header : Bytes)
  | started (header : Bytes)
  deriving Repr, DecidableEq

/-- The fields after `recording` are history: what was assigned, what the tasks wrote, and what
the hub wrote for them. -/
structure State where
  /-- The runner's registry, which survives the process. -/
  attempts : Ref → Option Attempt
  tracks : Ref → Option Track
  watchers : Ref → Option Watch
  pumps : Nat → Option Pump
  spools : String → Option Bytes
  outFiles : String → Option Bytes
  /-- The assignments in flight. -/
  offers : List Ref
  up : List Up
  down : List Down
  refs : Ref → Option RefState
  /-- The calls of `handleTaskEvent` that have written their output and not yet recorded the phase. -/
  recording : List TaskEvent
  assigned : List Ref
  written : Ref → Bytes
  emitted : Ref → Option Bytes
  appended : Ref → Bytes
  stored : Ref → List Bytes

def State.init : State where
  attempts _ := none
  tracks _ := none
  watchers _ := none
  pumps _ := none
  spools _ := none
  outFiles _ := none
  offers := []
  up := []
  down := []
  refs _ := none
  recording := []
  assigned := []
  written _ := []
  emitted _ := none
  appended _ := []
  stored _ := []

/-- The ref is in the worker's map. -/
def State.tracked (s : State) (ref : Ref) : Bool := (s.tracks ref).any (!·.collected)

inductive Step where
  /-- `groupExec.Launch`, once for a ref. -/
  | launch (ref : Ref) (logPath outputPath : String)
  | handleAssign (ref : Ref) (launching : Launching)
  | write (ref : Ref) (bytes : Bytes)
  /-- The task writes its output file. -/
  | emit (ref : Ref) (bytes : Bytes)
  | exit (ref : Ref) (code : Int)
  /-- The runner forgets a finished attempt. -/
  | evict (ref : Ref)
  /-- `watchExit` sees the exit and marks the entry. -/
  | note (ref : Ref)
  /-- `watchExit` reads the output file and sends the event. -/
  | report (ref : Ref)
  | startPump (id : Nat) (ref : Ref)
  | rewind (id : Nat)
  | pump (id : Nat)
  | endPump (id : Nat)
  /-- A new worker process; for each attempt that has ended meanwhile, its code. -/
  | restart (ended : Ref → Option Int)
  | probe (ref : Ref)
  | answerProbe (ref : Ref)
  | handleAck (a : LogAck)
  /-- `handleTaskEvent` up to the output; `ok` says that the write succeeds. -/
  | receive (ev : TaskEvent) (ok : Bool)
  | record (ev : TaskEvent)
  | handleLogChunk (c : LogChunk) (file : Append)
  | loseOffer (ref : Ref)
  | loseUp (m : Up)
  | loseDown (m : Down)
  /-- `sweep` drops a ref that has been terminal for long enough. -/
  | forget (ref : Ref)

namespace State

variable (s : State)

/-- `handleAssign`: a ref that is tracked is left alone, and so is one that the runner knows. -/
def assigns (ref : Ref) (launching : Launching) : State :=
  let s := { s with offers := s.offers.erase ref }
  if s.tracked ref then s else
  let s := { s with tracks := Function.update s.tracks ref (some {}) }
  if s.attempts ref ≠ none then { s with watchers := Function.update s.watchers ref (some .polling) } else
  match launching with
  | .noLog => { s with up := s.up ++ [.event { ref, phase := .exited 127 }] }
  | .failed header => { s with
      spools := Function.update s.spools (sanitizeRef ref) (some header)
      written := Function.update s.written ref header
      up := s.up ++ [.event { ref, phase := .exited 127 }] }
  | .started header => { s with
      spools := Function.update s.spools (sanitizeRef ref) (some header)
      written := Function.update s.written ref header
      attempts := Function.update s.attempts ref (some .running)
      watchers := Function.update s.watchers ref (some .polling) }

/-- Bytes written to a spool that was removed under the task are gone. -/
def writes (ref : Ref) (bytes : Bytes) : State :=
  { s with
    spools := Function.update s.spools (sanitizeRef ref) ((s.spools (sanitizeRef ref)).map (· ++ bytes))
    written := Function.update s.written ref (s.written ref ++ bytes) }

def emits (ref : Ref) (bytes : Bytes) : State :=
  { s with
    outFiles := Function.update s.outFiles (sanitizeRef ref) (some bytes)
    emitted := Function.update s.emitted ref (some bytes) }

def notes (ref : Ref) : State :=
  { s with
    tracks := if s.tracked ref then Function.update s.tracks ref ((s.tracks ref).map ({ · with exited := true })) else s.tracks
    watchers := Function.update s.watchers ref (some (.noted (Worker.probe (s.attempts ref)) (s.tracked ref))) }

def reports (ref : Ref) (seen : Phase) (tracked : Bool) : State :=
  { s with
    up := s.up ++ [.event (exitEvent ref seen tracked (s.outFiles (sanitizeRef ref)))]
    watchers := Function.update s.watchers ref none }

/-- The attempts that a new process finds. -/
def survivor (ended : Ref → Option Int) (ref : Ref) : Option Attempt :=
  match s.attempts ref with
  | some .running => some ((ended ref).elim .running .finished)
  | other => other

/-- `New`: only the attempts that still run get their bookkeeping back. -/
def restarts (ended : Ref → Option Int) : State :=
  { s with
    attempts := s.survivor ended
    tracks := fun ref => if s.survivor ended ref = some .running then some {} else none
    watchers := fun ref => if s.survivor ended ref = some .running then some .polling else none
    pumps := fun _ => none }

/-- `handleAck` on an entry of the map. -/
def acks (a : LogAck) (tr : Track) : State :=
  let tr := tr.acked a
  if tr.collectable (s.spools (sanitizeRef a.ref)) then
    { s with
      spools := Function.update s.spools (sanitizeRef a.ref) none
      outFiles := Function.update s.outFiles (sanitizeRef a.ref) none
      tracks := Function.update s.tracks a.ref (some { tr with collected := true }) }
  else { s with tracks := Function.update s.tracks a.ref (some tr) }

def receives (ev : TaskEvent) (rs : RefState) (ok : Bool) : State :=
  { s with
    stored := match outputToWrite rs ev with
      | some output => if ok then Function.update s.stored ev.ref (output :: s.stored ev.ref) else s.stored
      | none => s.stored
    recording := s.recording ++ [ev] }

def appends (c : LogChunk) (rs : RefState) (file : Append) : State :=
  let (bytes, rs, reply) := Worker.handleLogChunk rs file c
  { s with
    refs := Function.update s.refs c.ref (some rs)
    appended := Function.update s.appended c.ref (s.appended c.ref ++ bytes)
    down := s.down ++ (reply.map Down.ack).toList }

end State

def step (s : State) : Step → Option State
  | .launch ref logPath outputPath =>
    if ref ∈ s.assigned then none else some { s with
      refs := Function.update s.refs ref (some { logPath, outputPath })
      offers := s.offers ++ [ref]
      assigned := s.assigned ++ [ref] }
  | .handleAssign ref launching => if ref ∈ s.offers then some (s.assigns ref launching) else none
  | .write ref bytes => if s.attempts ref = some .running then some (s.writes ref bytes) else none
  | .emit ref bytes => if s.attempts ref = some .running then some (s.emits ref bytes) else none
  | .exit ref code =>
    if s.attempts ref = some .running then
      some { s with attempts := Function.update s.attempts ref (some (.finished code)) } else none
  | .evict ref => match s.attempts ref with
    | some (.finished _) => some { s with attempts := Function.update s.attempts ref none }
    | _ => none
  | .note ref =>
    if s.watchers ref = some .polling ∧ s.attempts ref ≠ some .running then some (s.notes ref) else none
  | .report ref => match s.watchers ref with
    | some (.noted seen tracked) => some (s.reports ref seen tracked)
    | _ => none
  | .startPump id ref => match s.tracks ref with
    | some tr => if tr.collected then none else
        some { s with pumps := Function.update s.pumps id (some { ref, sendOff := tr.ackOff }) }
    | none => none
  | .rewind id => match s.pumps id with
    | some p => match s.tracks p.ref with
      | some tr => if tr.rewind then some { s with
            pumps := Function.update s.pumps id (some (p.rewound tr))
            tracks := Function.update s.tracks p.ref (some { tr with rewind := false }) }
          else none
      | none => none
    | none => none
  | .pump id => match s.pumps id with
    | some p => match s.tracks p.ref, s.spools (sanitizeRef p.ref) with
      | some tr, some spool =>
        let (sent, next) := p.round tr.exited spool
        some { s with
          up := s.up ++ (sent.map Up.chunk).toList
          pumps := Function.update s.pumps id next }
      | _, _ => none
    | none => none
  | .endPump id => some { s with pumps := Function.update s.pumps id none }
  | .restart ended => some (s.restarts ended)
  | .probe ref => match s.refs ref with
    | some rs => if rs.phase = .running then some { s with down := s.down ++ [.probe ref] } else none
    | none => none
  | .answerProbe ref =>
    if Down.probe ref ∈ s.down then some { s with
      down := s.down.erase (.probe ref)
      up := s.up ++ [.event (probeAnswer ref (s.attempts ref) (s.tracked ref) (s.outFiles (sanitizeRef ref)))] }
    else none
  | .handleAck a =>
    if Down.ack a ∈ s.down then
      let s := { s with down := s.down.erase (.ack a) }
      match s.tracks a.ref with
      | some tr => some (if tr.collected then s else s.acks a tr)
      | none => some s
    else none
  | .receive ev ok =>
    if Up.event ev ∈ s.up then
      let s := { s with up := s.up.erase (.event ev) }
      match s.refs ev.ref with
      | some rs => some (s.receives ev rs ok)
      | none => some s
    else none
  | .record ev =>
    if ev ∈ s.recording then
      some { s with
        recording := s.recording.erase ev
        refs := match s.refs ev.ref with
          | some rs => Function.update s.refs ev.ref (some (rs.record ev))
          | none => s.refs }
    else none
  | .handleLogChunk c file =>
    if Up.chunk c ∈ s.up then
      let s := { s with up := s.up.erase (.chunk c) }
      match s.refs c.ref with
      | some rs => some (s.appends c rs file)
      | none => some s
    else none
  | .loseOffer ref => some { s with offers := s.offers.erase ref }
  | .loseUp m => some { s with up := s.up.erase m }
  | .loseDown m => some { s with down := s.down.erase m }
  | .forget ref => match s.refs ref with
    | some rs => if rs.phase = .running then none else some { s with refs := Function.update s.refs ref none }
    | none => none

end Cronova.Worker
