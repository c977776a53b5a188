import Mathlib.Data.List.Infix
import Mathlib.Data.String.Basic
import Mathlib.Logic.Function.Basic

/-! The dial-in worker (`internal/worker/worker.go`) and the hub that it reports to
(`internal/workerhub/hub.go`): the messages of a session, and what each side does with one.

The worker runs a task through `internal/executor`, lets it write to a local spool and a local
output file, and streams both back. The hub appends the log and writes the output where the
scheduler looks for it.
-/

set_option autoImplicit false

namespace Cronova.Worker

/-- An attempt ref, `run/task/try`. -/
abbrev Ref := String

abbrev Bytes := List UInt8

/-- `sanitizeRef`: every slash becomes an underscore. -/
def sanitizeRef (ref : Ref) : String := String.ofList (ref.toList.map fun c => if c = '/' then '_' else c)

/-- What the runner answers to a probe, and what an event says. -/
inductive Phase where
  | running
  | exited (code : Int)
  | unknown
  deriving Repr, DecidableEq

/-- An entry of the runner's registry. -/
inductive Attempt where
  | running
  | finished (code : Int)
  deriving Repr, DecidableEq

/-- `Runner.Probe`. -/
def probe : Option Attempt → Phase
  | none => .unknown
  | some .running => .running
  | some (.finished code) => .exited code

theorem probe_running {attempt : Option Attempt} (running : probe attempt = .running) : attempt = some .running := by
  cases attempt with
  | none => cases running
  | some a => cases a with
    | running => rfl
    | finished code => cases running

/-! ### Messages -/

structure TaskEvent where
  ref : Ref
  phase : Phase
  output : Bytes := []
  deriving Repr, DecidableEq

structure LogChunk where
  ref : Ref
  offset : Nat
  data : Bytes
  eof : Bool
  deriving Repr, DecidableEq

structure LogAck where
  ref : Ref
  offset : Nat
  rewind : Bool := false
  deriving Repr, DecidableEq

/-! ### The worker -/

/-- `refTrack`. A collected entry has left the map; only a pump that still holds it sees it. -/
structure Track where
  ackOff : Nat := 0
  rewind : Bool := false
  exited : Bool := false
  collected : Bool := false
  deriving Repr, DecidableEq

/-- The largest output that an event carries. -/
def maxOutput : Nat := 64 * 1024

/-- What an event carries of an output file: nothing of one that is missing or too large. -/
def readOutput (file : Option Bytes) : Bytes := (file.filter fun b => decide (b.length ≤ maxOutput)).getD []

/-- The event of `answerProbe`; `tracked` says that the ref is in the map. -/
def probeAnswer (ref : Ref) (attempt : Option Attempt) (tracked : Bool) (file : Option Bytes) : TaskEvent where
  ref
  phase := probe attempt
  output := match probe attempt with
    | .exited _ => if tracked then readOutput file else []
    | _ => []

/-- The event of `watchExit`, for the phase that it has seen and the entry that it has found. -/
def exitEvent (ref : Ref) (seen : Phase) (tracked : Bool) (file : Option Bytes) : TaskEvent where
  ref
  phase := seen
  output := if tracked then readOutput file else []

/-- The cursor update of `handleAck`: only a rewind moves it backward. -/
def Track.acked (tr : Track) (ack : LogAck) : Track :=
  if ack.rewind then { tr with ackOff := ack.offset, rewind := true }
  else if ack.offset > tr.ackOff then { tr with ackOff := ack.offset } else tr

/-- `tr.exited` and `tr.ackOff >= fi.Size()`, for a spool that `os.Stat` finds. -/
def Track.collectable (tr : Track) (spool : Option Bytes) : Bool :=
  tr.exited && spool.any fun b => decide (b.length ≤ tr.ackOff)

/-- The size of a pump's buffer. -/
def chunkSize : Nat := 32 * 1024

/-- `pumpLogs`, between two rounds. -/
structure Pump where
  ref : Ref
  sendOff : Nat
  eofSent : Bool := false
  deriving Repr, DecidableEq

/-- The hub demanded a restart from its high-water mark. -/
def Pump.rewound (p : Pump) (tr : Track) : Pump := { p with sendOff := tr.ackOff, eofSent := false }

/-- One round over the spool: the chunk to send, and the pump after it; `none` is a return. -/
def Pump.round (p : Pump) (exited : Bool) (spool : Bytes) : Option LogChunk × Option Pump :=
  let data := (spool.drop p.sendOff).take chunkSize
  let atEOF := decide (data.length < chunkSize)
  if data ≠ [] then
    (some ⟨p.ref, p.sendOff, data, exited && atEOF⟩, some { p with sendOff := p.sendOff + data.length, eofSent := exited && atEOF })
  else if exited then (if p.eofSent then none else some ⟨p.ref, p.sendOff, [], true⟩, none)
  else (none, some p)

/-! ### The hub -/

/-- `refState`. -/
structure RefState where
  logPath : String
  outputPath : String
  /-- The high-water byte offset written. -/
  logHW : Nat := 0
  phase : Phase := .running
  deriving Repr, DecidableEq

/-- What becomes of the log file in `handleLogChunk`. -/
inductive Append where
  | cannotOpen
  | fails
  | succeeds
  deriving Repr, DecidableEq

/-- `handleLogChunk`: the bytes to append, the new high-water mark and the reply. -/
def handleLogChunk (rs : RefState) (file : Append) (c : LogChunk) : Bytes × RefState × Option LogAck :=
  if c.offset < rs.logHW ∧ c.data.length ≤ rs.logHW - c.offset then
    ([], rs, some { ref := c.ref, offset := rs.logHW })
  else
    let data := c.data.drop (rs.logHW - c.offset)
    if c.offset > rs.logHW then
      -- a gap: the worker is told to start again from here
      ([], rs, some { ref := c.ref, offset := rs.logHW, rewind := true })
    else if rs.logPath = "" then ([], rs, some { ref := c.ref, offset := rs.logHW })
    else match file with
      | .cannotOpen => ([], rs, none)
      | .fails => ([], rs, some { ref := c.ref, offset := rs.logHW })
      | .succeeds =>
        (data, { rs with logHW := rs.logHW + data.length }, some { ref := c.ref, offset := rs.logHW + data.length })

theorem handleLogChunk_keeps (rs : RefState) (file : Append) (c : LogChunk) :
    (handleLogChunk rs file c).2.1.phase = rs.phase ∧ (handleLogChunk rs file c).2.1.outputPath = rs.outputPath := by
  unfold handleLogChunk
  dsimp only
  split
  · exact ⟨rfl, rfl⟩
  · split
    · exact ⟨rfl, rfl⟩
    · split
      · exact ⟨rfl, rfl⟩
      · cases file <;> exact ⟨rfl, rfl⟩

/-- What `handleTaskEvent` writes before it takes the lock again. -/
def outputToWrite (rs : RefState) (ev : TaskEvent) : Option Bytes :=
  if ev.output ≠ [] ∧ rs.outputPath ≠ "" then some ev.output else none

/-- The transition that `handleTaskEvent` records. -/
def RefState.record (rs : RefState) (ev : TaskEvent) : RefState := { rs with phase := ev.phase }

/-- A lookup after an update finds the new entry under its own key and the old ones elsewhere. -/
theorem update_some {A B : Type} [DecidableEq A] {f : A → Option B} {a b : A} {new : Option B} {x : B}
    (found : Function.update f a new b = some x) : b = a ∧ new = some x ∨ b ≠ a ∧ f b = some x := by
  by_cases own : b = a
  · subst own
    exact .inl ⟨rfl, by rwa [Function.update_self] at found⟩
  · exact .inr ⟨own, by rwa [Function.update_of_ne own] at found⟩

/-! ### Bytes of a growing file -/

section Bytes

variable {spool : Bytes} {c : LogChunk}

/-- The chunk is a piece of the spool. -/
def LogChunk.From (c : LogChunk) (spool : Bytes) : Prop := c.data <+: spool.drop c.offset

theorem LogChunk.From.grow (piece : c.From spool) (more : Bytes) : c.From (spool ++ more) := by
  unfold From at piece ⊢
  rw [List.drop_append]
  exact piece.trans (List.prefix_append _ _)

/-- A pump sends pieces of the spool. -/
theorem Pump.round_from {p : Pump} {exited : Bool} (sent : (p.round exited spool).1 = some c) :
    c.ref = p.ref ∧ c.From spool := by
  unfold Pump.round at sent
  simp only at sent
  split at sent
  · cases sent
    exact ⟨rfl, List.take_prefix _ _⟩
  · split at sent
    · split at sent
      · cases sent
      · cases sent
        exact ⟨rfl, List.nil_prefix⟩
    · cases sent

/-- What is appended starts at the high-water mark, and the reply does not go beyond it. -/
theorem handleLogChunk_spec (rs : RefState) (file : Append) (piece : c.From spool) :
    let after := handleLogChunk rs file c
    after.2.1.logHW = rs.logHW + after.1.length ∧ after.1 <+: spool.drop rs.logHW ∧
      after.2.1 = { rs with logHW := after.2.1.logHW } ∧
      ∀ ack, after.2.2 = some ack → ack.ref = c.ref ∧ ack.offset = after.2.1.logHW := by
  have trimmed (known : c.offset ≤ rs.logHW) : c.data.drop (rs.logHW - c.offset) <+: spool.drop rs.logHW := by
    have cut := List.IsPrefix.drop piece (rs.logHW - c.offset)
    rwa [List.drop_drop, Nat.add_sub_cancel' known] at cut
  unfold handleLogChunk
  dsimp only
  split
  · exact ⟨rfl, List.nil_prefix, rfl, by rintro _ ⟨⟩; exact ⟨rfl, rfl⟩⟩
  · split
    · exact ⟨rfl, List.nil_prefix, rfl, by rintro _ ⟨⟩; exact ⟨rfl, rfl⟩⟩
    · rename_i noGap
      split
      · exact ⟨rfl, List.nil_prefix, rfl, by rintro _ ⟨⟩; exact ⟨rfl, rfl⟩⟩
      · cases file with
        | cannotOpen => exact ⟨rfl, List.nil_prefix, rfl, by rintro _ ⟨⟩⟩
        | fails => exact ⟨rfl, List.nil_prefix, rfl, by rintro _ ⟨⟩; exact ⟨rfl, rfl⟩⟩
        | succeeds =>
          exact ⟨rfl, trimmed (Nat.le_of_not_lt noGap), rfl, by rintro _ ⟨⟩; exact ⟨rfl, rfl⟩⟩

end Bytes

end Cronova.Worker
