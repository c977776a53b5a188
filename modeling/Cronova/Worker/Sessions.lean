import Cronova.Process.Reach
import Cronova.Worker.Protocol

/-! Sessions of a worker: what becomes of a terminal event when its session ends.

The queues are bounded. The worker puts log chunks, answers to probes and terminal events into one
of them, which is replaced at every reconnect; the hub puts assignments, probes and acknowledgements
into another. A stream keeps its order while its session lasts. What the worker has sent on a session
that is over may still arrive, or not.
-/

set_option autoImplicit false

namespace Cronova.Worker.Session

open Process

/-- The capacity of the worker's queue. -/
def outCap : Nat := 256

/-- The capacity of the hub's queue. -/
def sendCap : Nat := 64

/-- The attempts of `sendReliable`. -/
def tries : Nat := 120

inductive WorkerMessage where
  | event (ev : TaskEvent)
  | chunk (c : LogChunk)
  deriving Repr, DecidableEq

inductive ServerMessage where
  | assign (ref : Ref)
  | cancel (ref : Ref)
  | probe (ref : Ref)
  | ack (a : LogAck)
  deriving Repr, DecidableEq

/-- `watchExit`: it polls, and then it is in `sendReliable`, with the attempts that are left and the
queue that it has resolved. -/
inductive Watch where
  | polling
  | sending (ev : TaskEvent) (left : Nat) (queue : Option Nat)
  deriving Repr, DecidableEq

/-- `session`: the queue is swapped before the refs are listed, and the rest waits for the hub to
have handled the Hello. -/
inductive Link where
  | closed
  | opened
  | greeting (active : List Ref)
  | serving
  deriving Repr, DecidableEq

structure State where
  attempts : Ref → Option Attempt
  watchers : Ref → Option Watch
  /-- The number of the queue in `a.out`; the first one is 1. -/
  epoch : Nat
  out : List WorkerMessage
  link : Link
  up : List WorkerMessage
  /-- The hub's queue. -/
  send : List ServerMessage
  down : List ServerMessage
  /-- Messages on the streams of earlier sessions. -/
  late : List WorkerMessage
  refs : Ref → Option RefState
  assigned : List Ref

def State.init : State where
  attempts _ := none
  watchers _ := none
  epoch := 0
  out := []
  link := .closed
  up := []
  send := []
  down := []
  late := []
  refs _ := none
  assigned := []

inductive Step where
  /-- `groupExec.Launch`, once for a ref; `current` says that the session the hub picks is the one
  the worker is on. -/
  | launch (ref : Ref) (logPath outputPath : String) (current : Bool)
  | cancel (ref : Ref)
  | handleAssign (launched : Bool)
  | exit (ref : Ref) (code : Int)
  /-- The runner forgets a finished attempt. -/
  | evict (ref : Ref)
  /-- `watchExit` sees the exit; `output` is what it finds of the output. -/
  | note (ref : Ref) (output : Bytes)
  /-- An attempt of `sendReliable` begins. -/
  | resolve (ref : Ref)
  | enqueue (ref : Ref)
  | abandon (ref : Ref)
  | connect
  | greet
  /-- The hub handles the Hello; its map is in any order. -/
  | hello (order : List Ref)
  | drop
  | write
  | forward
  /-- The worker reads an acknowledgement or a cancellation. -/
  | read
  | answerProbe (output : Bytes)
  | pump (c : LogChunk)
  | receive (file : Append)
  | receiveLate (m : WorkerMessage) (file : Append)
  | loseLate (m : WorkerMessage)
  | forget (ref : Ref)
  /-- A new worker process; for each attempt that has ended meanwhile, its code. -/
  | restart (ended : Ref → Option Int)

namespace State

variable (s : State)

/-- `Runner.ActiveRefs`. -/
def activeRefs : List Ref := s.assigned.filter fun ref => decide (s.attempts ref = some .running)

/-- The refs that the hub still has as running and the Hello does not name. -/
def toProbe (active : List Ref) : List Ref :=
  s.assigned.filter fun ref => (s.refs ref).any (fun rs => decide (rs.phase = .running)) && decide (ref ∉ active)

/-- A non-blocking send into the hub's queue. -/
def offer (m : ServerMessage) : List ServerMessage := if s.send.length < sendCap then s.send ++ [m] else s.send

/-- `handleTaskEvent` and `handleLogChunk`, with the reply. -/
def handles (file : Append) : WorkerMessage → (Ref → Option RefState) × Option LogAck
  | .event ev => ((s.refs ev.ref).elim s.refs fun rs => Function.update s.refs ev.ref (some (rs.record ev)), none)
  | .chunk c => match s.refs c.ref with
    | none => (s.refs, none)
    | some rs =>
      let (_, rs, reply) := handleLogChunk rs file c
      (Function.update s.refs c.ref (some rs), reply)

/-- The queue of the session `id` takes no more. That of a session that is over is unknown. -/
def Jammed (id : Nat) : Prop := id = s.epoch → outCap ≤ s.out.length

instance (id : Nat) : Decidable (s.Jammed id) := inferInstanceAs (Decidable (id = s.epoch → outCap ≤ s.out.length))

/-- The attempts that a new process finds. -/
def survivor (ended : Ref → Option Int) (ref : Ref) : Option Attempt :=
  match s.attempts ref with
  | some .running => some ((ended ref).elim .running .finished)
  | other => other

end State

def step (s : State) : Step → Option State
  | .launch ref logPath outputPath current =>
    if ref ∈ s.assigned then none else
    let s := { s with
      refs := Function.update s.refs ref (some { logPath, outputPath })
      assigned := s.assigned ++ [ref] }
    if !current then some s
    else if s.link = .serving ∧ s.send.length < sendCap then some { s with send := s.send ++ [.assign ref] } else none
  | .cancel ref => if s.link = .serving then some { s with send := s.offer (.cancel ref) } else none
  | .handleAssign launched => match s.down with
    | .assign ref :: rest =>
      let s := { s with down := rest }
      if s.attempts ref ≠ none then some s
      else if launched then some { s with
        attempts := Function.update s.attempts ref (some .running)
        watchers := Function.update s.watchers ref (some .polling) }
      else some { s with
        watchers := Function.update s.watchers ref (some (.sending { ref, phase := .exited 127 } tries none)) }
    | _ => none
  | .exit ref code =>
    if s.attempts ref = some .running then
      some { s with attempts := Function.update s.attempts ref (some (.finished code)) } else none
  | .evict ref => match s.attempts ref with
    | some (.finished _) => some { s with attempts := Function.update s.attempts ref none }
    | _ => none
  | .note ref output =>
    if s.watchers ref = some .polling ∧ s.attempts ref ≠ some .running then
      some { s with watchers :=
        Function.update s.watchers ref (some (.sending { ref, phase := probe (s.attempts ref), output } tries none)) }
    else none
  | .resolve ref => match s.watchers ref with
    | some (.sending ev (left + 1) queue) =>
      if ∀ id, queue = some id → s.Jammed id then
        some { s with watchers :=
          Function.update s.watchers ref (some (.sending ev left (if s.epoch = 0 then none else some s.epoch))) }
      else none
    | _ => none
  | .enqueue ref => match s.watchers ref with
    | some (.sending ev _ (some id)) =>
      let watchers := Function.update s.watchers ref none
      if id ≠ s.epoch then some { s with watchers }
      else if s.out.length < outCap then some { s with watchers, out := s.out ++ [.event ev] } else none
    | _ => none
  | .abandon ref => match s.watchers ref with
    | some (.sending _ 0 queue) =>
      if ∀ id, queue = some id → s.Jammed id then some { s with watchers := Function.update s.watchers ref none } else none
    | _ => none
  | .connect =>
    if s.link = .closed then some { s with epoch := s.epoch + 1, out := [], link := .opened } else none
  | .greet => if s.link = .opened then some { s with link := .greeting s.activeRefs } else none
  | .hello order => match s.link with
    | .greeting active =>
      if order.Perm (s.toProbe active) then
        some { s with link := .serving, send := (order.take sendCap).map .probe } else none
    | _ => none
  | .drop => if s.link = .closed then none else
    some { s with link := .closed, late := s.late ++ s.up, up := [], send := [], down := [] }
  | .write => match s.link, s.out with
    | .serving, m :: rest => some { s with out := rest, up := s.up ++ [m] }
    | _, _ => none
  | .forward => match s.send with
    | m :: rest => some { s with send := rest, down := s.down ++ [m] }
    | _ => none
  | .read => match s.down with
    | .ack _ :: rest | .cancel _ :: rest => some { s with down := rest }
    | _ => none
  | .answerProbe output => match s.down with
    | .probe ref :: rest =>
      let s := { s with down := rest }
      some (if s.out.length < outCap then
        { s with out := s.out ++ [.event { ref, phase := probe (s.attempts ref), output }] } else s)
    | _ => none
  | .pump c =>
    if s.link = .serving ∧ c.ref ∈ s.assigned ∧ s.out.length < outCap then
      some { s with out := s.out ++ [.chunk c] } else none
  | .receive file => match s.up with
    | m :: rest =>
      let (refs, reply) := s.handles file m
      some { s with up := rest, refs, send := reply.elim s.send fun a => s.offer (.ack a) }
    | _ => none
  | .receiveLate m file =>
    if m ∈ s.late then some { s with late := s.late.erase m, refs := (s.handles file m).1 } else none
  | .loseLate m => some { s with late := s.late.erase m }
  | .forget ref => match s.refs ref with
    | some rs => if rs.phase = .running then none else some { s with refs := Function.update s.refs ref none }
    | none => none
  | .restart ended =>
    some { s with
      attempts := s.survivor ended
      watchers := fun ref => if s.survivor ended ref = some .running then some .polling else none
      epoch := 0
      out := []
      link := .closed
      late := s.late ++ s.up
      up := []
      send := []
      down := [] }

/-! ### What is promised -/

/-- The session is up and nothing of it is left to deliver. -/
structure State.Delivered (s : State) : Prop where
  link : s.link = .serving
  out : s.out = []
  up : s.up = []
  send : s.send = []
  down : s.down = []
  watchers : ∀ ref ∈ s.assigned, s.watchers ref = none ∨ s.attempts ref = none ∨ s.attempts ref = some .running

instance (s : State) : Decidable s.Delivered :=
  decidable_of_iff (s.link = .serving ∧ s.out = [] ∧ s.up = [] ∧ s.send = [] ∧ s.down = [] ∧
      ∀ ref ∈ s.assigned, s.watchers ref = none ∨ s.attempts ref = none ∨ s.attempts ref = some .running)
    ⟨fun ⟨a, b, c, d, e, f⟩ => ⟨a, b, c, d, e, f⟩, fun ⟨a, b, c, d, e, f⟩ => ⟨a, b, c, d, e, f⟩⟩

/-- No ref is on record as running that the runner reports as exited. -/
def State.Caught (s : State) : Prop :=
  ∀ ref code rs, s.attempts ref = some (.finished code) → s.refs ref = some rs → rs.phase ≠ .running

/-- The hub asks about the ref in this session, or has asked. -/
def State.asked (s : State) (ref : Ref) : Bool := match s.link with
  | .closed => false
  | .opened => true
  | .greeting active => decide (ref ∉ active)
  | .serving => decide (.probe ref ∈ s.send ++ s.down)

/-- An event about the ref is on its way in this session. -/
def State.reported (s : State) (ref : Ref) : Bool := (s.out ++ s.up).any fun
  | .event ev => decide (ev.ref = ref)
  | .chunk _ => false

/-- Every probe finds room, and so does its answer; an event is given up only between sessions or
when the hub learns of it in another way. -/
def Roomy (s : State) : Step → Prop
  | .hello order => order.length ≤ sendCap
  | .answerProbe _ => s.out.length < outCap
  | .abandon ref => s.link = .closed ∨ s.asked ref = true ∨ s.reported ref = true
  | _ => True

instance (s : State) : ∀ label, Decidable (Roomy s label)
  | .hello order => inferInstanceAs (Decidable (order.length ≤ sendCap))
  | .answerProbe _ => inferInstanceAs (Decidable (s.out.length < outCap))
  | .abandon ref => inferInstanceAs (Decidable (s.link = .closed ∨ s.asked ref = true ∨ s.reported ref = true))
  | .launch .. | .cancel _ | .handleAssign _ | .exit .. | .evict _ | .note .. | .resolve _ | .enqueue _ | .connect | .greet
  | .drop | .write | .forward | .read | .pump _ | .receive _ | .receiveLate .. | .loseLate _ | .forget _ | .restart _ =>
    .isTrue trivial

/-! ### Why it holds -/

/-- The watcher will put the event into the queue of this session. -/
def Watch.Sends (epoch : Nat) : Watch → Prop
  | .polling => True
  | .sending _ _ queue => ∀ id, queue = some id → id = epoch

/-- The hub learns of the exit in this session. -/
def State.Due (s : State) (ref : Ref) : Prop :=
  s.reported ref = true ∨ s.asked ref = true ∨ ∃ w, s.watchers ref = some w ∧ w.Sends s.epoch

structure Inv (s : State) : Prop where
  watched : ∀ r, s.attempts r = some .running → s.watchers r = some .polling
  events : ∀ ev, .event ev ∈ s.out ++ s.up ++ s.late → ev.phase ≠ .running
  sending : ∀ r ev left queue, s.watchers r = some (.sending ev left queue) → ev.ref = r ∧ ev.phase ≠ .running
  attempts : ∀ r, s.attempts r ≠ none → r ∈ s.assigned
  refs : ∀ r, s.refs r ≠ none → r ∈ s.assigned
  idle : s.link ≠ .serving → s.up = [] ∧ s.send = [] ∧ s.down = []
  greeting : ∀ active r, s.link = .greeting active → s.attempts r = some .running → r ∈ active
  assigns : ∀ r, .assign r ∈ s.send ++ s.down → r ∈ s.assigned
  probes : ∀ r, .probe r ∈ s.send ++ s.down →
    r ∈ s.assigned ∧ s.attempts r ≠ some .running ∧ .assign r ∉ s.send ++ s.down
  due : ∀ r code rs, s.attempts r = some (.finished code) → s.refs r = some rs → rs.phase = .running →
    s.link ≠ .closed → s.Due r

theorem reported_iff {s : State} {ref : Ref} :
    s.reported ref = true ↔ ∃ ev, ev.ref = ref ∧ WorkerMessage.event ev ∈ s.out ++ s.up := by
  simp only [State.reported, List.any_eq_true]
  constructor
  · rintro ⟨m, member, own⟩
    cases m with
    | event ev => exact ⟨ev, of_decide_eq_true own, member⟩
    | chunk c => cases own
  · rintro ⟨ev, own, member⟩
    exact ⟨_, member, decide_eq_true own⟩

/-- A message changes the phase of no ref but its own, and to the one that it says. -/
theorem handles_spec {s : State} {file : Append} {m : WorkerMessage} {r : Ref} {rs : RefState}
    (found : (s.handles file m).1 r = some rs) :
    ∃ old, s.refs r = some old ∧ ((∃ ev, m = .event ev ∧ ev.ref = r ∧ rs.phase = ev.phase) ∨
      (∀ ev, m = .event ev → ev.ref ≠ r) ∧ rs.phase = old.phase) := by
  cases m with
  | event ev =>
    cases tracked : s.refs ev.ref with
    | none =>
      simp only [State.handles, tracked, Option.elim_none] at found
      refine ⟨rs, found, .inr ⟨?_, rfl⟩⟩
      rintro _ ⟨⟩ rfl
      rw [tracked] at found
      cases found
    | some before =>
      simp only [State.handles, tracked, Option.elim_some] at found
      rcases update_some found with ⟨rfl, given⟩ | ⟨other, old⟩
      · cases given
        exact ⟨before, tracked, .inl ⟨ev, rfl, rfl, rfl⟩⟩
      · refine ⟨rs, old, .inr ⟨?_, rfl⟩⟩
        rintro _ ⟨⟩ rfl
        exact other rfl
  | chunk c =>
    cases tracked : s.refs c.ref with
    | none =>
      simp only [State.handles, tracked] at found
      exact ⟨rs, found, .inr ⟨nofun, rfl⟩⟩
    | some before =>
      simp only [State.handles, tracked] at found
      rcases update_some found with ⟨rfl, given⟩ | ⟨_, old⟩
      · cases given
        exact ⟨before, tracked, .inr ⟨nofun, (handleLogChunk_keeps before file c).1⟩⟩
      · exact ⟨rs, old, .inr ⟨nofun, rfl⟩⟩

namespace Inv

variable {s t : State}

theorem init : Inv State.init where
  watched _ running := nomatch running
  events _ member := absurd member List.not_mem_nil
  sending _ _ _ _ found := nomatch found
  attempts _ present := absurd rfl present
  refs _ present := absurd rfl present
  idle _ := ⟨rfl, rfl, rfl⟩
  greeting _ _ link := nomatch link
  assigns _ member := absurd member List.not_mem_nil
  probes _ member := absurd member List.not_mem_nil
  due _ _ _ finished := nomatch finished

/-- When all is delivered, nothing is due. -/
theorem caught (inv : Inv s) (delivered : s.Delivered) : s.Caught := by
  intro ref code rs finished found running
  have open_ : s.link ≠ .closed := by simp [delivered.link]
  rcases inv.due ref code rs finished found running open_ with reported | asked | ⟨w, watching, _⟩
  · simp [State.reported, delivered.out, delivered.up] at reported
  · simp [State.asked, delivered.link, delivered.send, delivered.down] at asked
  · have known := inv.attempts ref (by simp [finished])
    simpa [finished, watching] using delivered.watchers ref known

/-- Whoever sends has seen the attempt end. -/
theorem not_running (inv : Inv s) {ref : Ref} {ev : TaskEvent} {left : Nat} {queue : Option Nat}
    (sending : s.watchers ref = some (.sending ev left queue)) : s.attempts ref ≠ some .running := by
  intro running
  rw [inv.watched ref running] at sending
  cases sending

/-- Nothing reaches the worker outside a session. -/
theorem serving_of_down (inv : Inv s) {m : ServerMessage} {rest : List ServerMessage} (down : s.down = m :: rest) :
    s.link = .serving := by
  by_contra idle
  have empty := (inv.idle idle).2.2
  rw [down] at empty
  cases empty

/-! ### The worker -/

theorem exits (inv : Inv s) {ref : Ref} {code : Int} (running : s.attempts ref = some .running) :
    Inv { s with attempts := Function.update s.attempts ref (some (.finished code)) } := by
  have before {r : Ref} (again : Function.update s.attempts ref (some (.finished code)) r = some .running) :
      s.attempts r = some .running := by
    rcases update_some again with ⟨_, given⟩ | ⟨_, old⟩
    · cases given
    · exact old
  exact {
    inv with
    watched := fun r again => inv.watched r (before again)
    attempts := fun r present => by
      by_cases own : r = ref
      · exact inv.attempts r (by simp [own, running])
      · simp only [Function.update_of_ne own] at present
        exact inv.attempts r present
    greeting := fun active r link again => inv.greeting active r link (before again)
    probes := fun r member => by
      obtain ⟨known, idle, unsent⟩ := inv.probes r member
      exact ⟨known, fun again => idle (before again), unsent⟩
    due := fun r code' rs finished found phase link => by
      rcases update_some finished with ⟨rfl, _⟩ | ⟨_, old⟩
      · exact .inr (.inr ⟨_, inv.watched r running, trivial⟩)
      · exact inv.due r code' rs old found phase link }

theorem evicts (inv : Inv s) (ref : Ref) : Inv { s with attempts := Function.update s.attempts ref none } := by
  have before {r : Ref} {a : Attempt} (again : Function.update s.attempts ref none r = some a) : s.attempts r = some a := by
    rcases update_some again with ⟨_, given⟩ | ⟨_, old⟩
    · cases given
    · exact old
  exact {
    inv with
    watched := fun r again => inv.watched r (before again)
    attempts := fun r present => by
      obtain ⟨a, found⟩ := Option.ne_none_iff_exists'.mp present
      exact inv.attempts r (by simp [before found])
    greeting := fun active r link again => inv.greeting active r link (before again)
    probes := fun r member => by
      obtain ⟨known, idle, unsent⟩ := inv.probes r member
      exact ⟨known, fun again => idle (before again), unsent⟩
    due := fun r code rs finished => inv.due r code rs (before finished) }

/-- One watcher goes on. -/
theorem rewatch (inv : Inv s) {ref : Ref} {w : Option Watch} (idle : s.attempts ref ≠ some .running)
    (sending : ∀ ev left queue, w = some (.sending ev left queue) → ev.ref = ref ∧ ev.phase ≠ .running)
    (due : s.link ≠ .closed → s.Due ref →
      s.reported ref = true ∨ s.asked ref = true ∨ ∃ w', w = some w' ∧ w'.Sends s.epoch) :
    Inv { s with watchers := Function.update s.watchers ref w } := by
  exact {
    inv with
    watched := fun r running => by
      have other : r ≠ ref := by
        rintro rfl
        exact idle running
      simpa only [Function.update_of_ne other] using inv.watched r running
    sending := fun r ev left queue found => by
      rcases update_some found with ⟨rfl, given⟩ | ⟨_, old⟩
      · exact sending ev left queue given
      · exact inv.sending r ev left queue old
    due := fun r code rs finished found phase link => by
      have before := inv.due r code rs finished found phase link
      by_cases own : r = ref
      · subst own
        rcases due link before with reported | asked | ⟨w', given, sends⟩
        · exact .inl reported
        · exact .inr (.inl asked)
        · exact .inr (.inr ⟨w', by simp only [Function.update_self, given], sends⟩)
      · rcases before with reported | asked | ⟨w', watching, sends⟩
        · exact .inl reported
        · exact .inr (.inl asked)
        · exact .inr (.inr ⟨w', by simpa only [Function.update_of_ne own] using watching, sends⟩) }

/-- A message enters the worker's queue. -/
theorem outgoing (inv : Inv s) {m : WorkerMessage} (terminal : ∀ ev, m = .event ev → ev.phase ≠ .running) :
    Inv { s with out := s.out ++ [m] } := by
  exact {
    inv with
    events := fun ev member => by
      simp only [List.mem_append, List.mem_singleton] at member
      rcases member with ((old | new) | up) | late
      · exact inv.events ev (by simp [old])
      · exact terminal ev new.symm
      · exact inv.events ev (by simp [up])
      · exact inv.events ev (by simp [late])
    due := fun r code rs finished found phase link => by
      rcases inv.due r code rs finished found phase link with reported | rest
      · obtain ⟨ev, own, member⟩ := reported_iff.mp reported
        refine .inl (reported_iff.mpr ⟨ev, own, ?_⟩)
        simp only [List.mem_append] at member ⊢
        exact member.imp_left .inl
      · exact .inr rest }

/-- The worker has read a message; a probe has been answered. -/
theorem reads (inv : Inv s) {m : ServerMessage} {rest : List ServerMessage} (down : s.down = m :: rest)
    (answered : ∀ r, m = .probe r → s.reported r = true) : Inv { s with down := rest } := by
  have within {m' : ServerMessage} (member : m' ∈ s.send ++ rest) : m' ∈ s.send ++ s.down := by
    rw [down]
    simp only [List.mem_append, List.mem_cons] at member ⊢
    exact member.imp_right .inr
  have serving := inv.serving_of_down down
  exact {
    inv with
    idle := fun idle => absurd serving idle
    assigns := fun r member => inv.assigns r (within member)
    probes := fun r member => by
      obtain ⟨known, idle, unsent⟩ := inv.probes r (within member)
      exact ⟨known, idle, fun sent => unsent (within sent)⟩
    due := fun r code rs finished found phase link => by
      rcases inv.due r code rs finished found phase link with reported | asked | watching
      · exact .inl reported
      · simp only [State.asked, serving, decide_eq_true_eq, down, List.mem_append, List.mem_cons] at asked
        rcases asked with send | own | down'
        · exact .inr (.inl (by simp [State.asked, serving, send]))
        · exact .inl (answered r own.symm)
        · exact .inr (.inl (by simp [State.asked, serving, down']))
      · exact .inr (.inr watching) }

/-- The runner starts an attempt that nobody asks about. -/
theorem launches (inv : Inv s) {ref : Ref} (serving : s.link = .serving) (known : ref ∈ s.assigned)
    (unasked : ServerMessage.probe ref ∉ s.send ++ s.down) : Inv { s with
      attempts := Function.update s.attempts ref (some .running)
      watchers := Function.update s.watchers ref (some .polling) } := by
  exact {
    inv with
    watched := fun r running => by
      rcases update_some running with ⟨rfl, _⟩ | ⟨other, old⟩
      · exact Function.update_self ..
      · simpa only [Function.update_of_ne other] using inv.watched r old
    sending := fun r ev left queue found => by
      rcases update_some found with ⟨_, given⟩ | ⟨_, old⟩
      · cases given
      · exact inv.sending r ev left queue old
    attempts := fun r present => by
      by_cases own : r = ref
      · exact own ▸ known
      · simp only [Function.update_of_ne own] at present
        exact inv.attempts r present
    greeting := fun active r link => by
      rw [serving] at link
      cases link
    probes := fun r member => by
      have other : r ≠ ref := by
        rintro rfl
        exact unasked member
      simpa only [Function.update_of_ne other] using inv.probes r member
    due := fun r code rs finished found phase link => by
      rcases update_some finished with ⟨_, given⟩ | ⟨other, old⟩
      · cases given
      · rcases inv.due r code rs old found phase link with reported | asked | ⟨w, watching, sends⟩
        · exact .inl reported
        · exact .inr (.inl asked)
        · exact .inr (.inr ⟨w, by simpa only [Function.update_of_ne other] using watching, sends⟩) }

theorem restarts (inv : Inv s) (ended : Ref → Option Int) : Inv { s with
    attempts := s.survivor ended
    watchers := fun ref => if s.survivor ended ref = some .running then some .polling else none
    epoch := 0, out := [], link := .closed, late := s.late ++ s.up, up := [], send := [], down := [] } where
  watched r running := if_pos running
  events ev member := by
    apply inv.events ev
    simp only [List.mem_append, List.not_mem_nil, false_or] at member ⊢
    rcases member with late | up
    · exact .inr late
    · exact .inl (.inr up)
  sending r ev left queue found := by
    dsimp only at found
    split at found
    · cases found
    · cases found
  attempts r present := by
    apply inv.attempts r
    intro none
    simp [State.survivor, none] at present
  refs := inv.refs
  idle _ := ⟨rfl, rfl, rfl⟩
  greeting _ _ link := nomatch link
  assigns _ member := absurd member List.not_mem_nil
  probes _ member := absurd member List.not_mem_nil
  due _ _ _ _ _ _ open_ := absurd rfl open_

/-! ### The session -/

/-- A new queue: from here on every exit is found by the list of refs or sent by its watcher. -/
theorem connects (inv : Inv s) (closed : s.link = .closed) :
    Inv { s with epoch := s.epoch + 1, out := [], link := .opened } := by
  have idle := inv.idle (by simp [closed])
  exact {
    inv with
    events := fun ev member => inv.events ev (by
      simp only [List.nil_append, List.mem_append] at member ⊢
      exact member.imp_left .inr)
    idle := fun _ => idle
    greeting := fun _ _ link => nomatch link
    due := fun _ _ _ _ _ _ _ => .inr (.inl rfl) }

theorem greets (inv : Inv s) (opened : s.link = .opened) : Inv { s with link := .greeting s.activeRefs } := by
  have idle := inv.idle (by simp [opened])
  have listed {r : Ref} (running : s.attempts r = some .running) : r ∈ s.activeRefs :=
    List.mem_filter.mpr ⟨inv.attempts r (by simp [running]), decide_eq_true running⟩
  exact {
    inv with
    idle := fun _ => idle
    greeting := fun active r link running => by
      cases link
      exact listed running
    due := fun r code rs finished _ _ _ => by
      refine .inr (.inl (decide_eq_true fun member => ?_))
      have running := of_decide_eq_true (List.mem_filter.mp member).2
      rw [finished] at running
      cases running }

/-- The hub asks about every ref that the Hello does not name, if its queue holds them all. -/
theorem hellos (inv : Inv s) {active order : List Ref} (greeting : s.link = .greeting active)
    (all : order.Perm (s.toProbe active)) (room : order.length ≤ sendCap) :
    Inv { s with link := .serving, send := (order.take sendCap).map .probe } := by
  rw [List.take_of_length_le room]
  obtain ⟨_, _, down⟩ := inv.idle (by simp [greeting])
  have probed {r : Ref} : r ∈ order ↔
      r ∈ s.assigned ∧ ((s.refs r).any fun rs => decide (rs.phase = .running)) = true ∧ r ∉ active := by
    rw [all.mem_iff]
    simp only [State.toProbe, List.mem_filter, Bool.and_eq_true, decide_eq_true_eq]
  exact {
    inv with
    idle := fun idle => absurd rfl idle
    greeting := fun _ _ link => nomatch link
    assigns := fun r member => by simp [down] at member
    probes := fun r member => by
      simp only [down, List.append_nil, List.mem_map, ServerMessage.probe.injEq, exists_eq_right] at member
      obtain ⟨known, _, missing⟩ := probed.mp member
      exact ⟨known, fun running => missing (inv.greeting active r greeting running), by simp [down]⟩
    due := fun r code rs finished found phase _ => by
      rcases inv.due r code rs finished found phase (by simp [greeting]) with reported | asked | watching
      · exact .inl reported
      · have missing : r ∉ active := by simpa [State.asked, greeting] using asked
        replace found : s.refs r = some rs := found
        have member : r ∈ order := probed.mpr ⟨inv.refs r (by simp [found]), by simp [found, phase], missing⟩
        exact .inr (.inl (by simp [State.asked, member]))
      · exact .inr (.inr watching) }

theorem drops (inv : Inv s) :
    Inv { s with link := .closed, late := s.late ++ s.up, up := [], send := [], down := [] } where
  watched := inv.watched
  events ev member := by
    apply inv.events ev
    simp only [List.append_nil, List.mem_append] at member ⊢
    rcases member with out | late | up
    · exact .inl (.inl out)
    · exact .inr late
    · exact .inl (.inr up)
  sending := inv.sending
  attempts := inv.attempts
  refs := inv.refs
  idle _ := ⟨rfl, rfl, rfl⟩
  greeting _ _ link := nomatch link
  assigns _ member := absurd member List.not_mem_nil
  probes _ member := absurd member List.not_mem_nil
  due _ _ _ _ _ _ open_ := absurd rfl open_

/-- The worker's writer. -/
theorem writes (inv : Inv s) {m : WorkerMessage} {rest : List WorkerMessage} (serving : s.link = .serving)
    (out : s.out = m :: rest) : Inv { s with out := rest, up := s.up ++ [m] } := by
  have same {m' : WorkerMessage} : m' ∈ rest ++ (s.up ++ [m]) ↔ m' ∈ s.out ++ s.up := by
    simp only [out, List.mem_append, List.mem_cons, List.not_mem_nil, or_false]
    tauto
  exact {
    inv with
    events := fun ev member => inv.events ev (by
      rw [List.mem_append] at member ⊢
      exact member.imp_left same.mp)
    idle := fun idle => absurd serving idle
    due := fun r code rs finished found phase link => by
      rcases inv.due r code rs finished found phase link with reported | others
      · obtain ⟨ev, own, member⟩ := reported_iff.mp reported
        exact .inl (reported_iff.mpr ⟨ev, own, same.mpr member⟩)
      · exact .inr others }

/-- The hub's writer. -/
theorem forwards (inv : Inv s) {m : ServerMessage} {rest : List ServerMessage} (send : s.send = m :: rest) :
    Inv { s with send := rest, down := s.down ++ [m] } := by
  have same {m' : ServerMessage} : m' ∈ rest ++ (s.down ++ [m]) ↔ m' ∈ s.send ++ s.down := by
    simp only [send, List.mem_append, List.mem_cons, List.not_mem_nil, or_false]
    tauto
  have serving : s.link = .serving := by
    by_contra idle
    have empty := (inv.idle idle).2.1
    rw [send] at empty
    cases empty
  exact {
    inv with
    idle := fun idle => absurd serving idle
    assigns := fun r member => inv.assigns r (same.mp member)
    probes := fun r member => by
      obtain ⟨known, idle, unsent⟩ := inv.probes r (same.mp member)
      exact ⟨known, idle, fun sent => unsent (same.mp sent)⟩
    due := fun r code rs finished found phase link => by
      rcases inv.due r code rs finished found phase link with reported | asked | watching
      · exact .inl reported
      · simp only [State.asked, serving, decide_eq_true_eq] at asked
        exact .inr (.inl (by simpa only [State.asked, serving, decide_eq_true_eq] using same.mpr asked))
      · exact .inr (.inr watching) }

/-! ### The hub -/

/-- A message enters the hub's queue. -/
theorem sends (inv : Inv s) {m : ServerMessage} (serving : s.link = .serving)
    (assigns : ∀ r, m = .assign r → r ∈ s.assigned ∧ .probe r ∉ s.send ++ s.down) (noProbe : ∀ r, m ≠ .probe r) :
    Inv { s with send := s.send ++ [m] } := by
  have before {m' : ServerMessage} (member : m' ∈ s.send ++ [m] ++ s.down) : m' ∈ s.send ++ s.down ∨ m' = m := by
    simp only [List.mem_append, List.mem_singleton] at member ⊢
    tauto
  have probe_before {r : Ref} (member : .probe r ∈ s.send ++ [m] ++ s.down) : .probe r ∈ s.send ++ s.down := by
    rcases before member with old | new
    · exact old
    · exact absurd new.symm (noProbe r)
  exact {
    inv with
    idle := fun idle => absurd serving idle
    assigns := fun r member => by
      rcases before member with old | new
      · exact inv.assigns r old
      · exact (assigns r new.symm).1
    probes := fun r member => by
      obtain ⟨known, idle, unsent⟩ := inv.probes r (probe_before member)
      refine ⟨known, idle, fun sent => ?_⟩
      rcases before sent with old | new
      · exact unsent old
      · exact (assigns r new.symm).2 (probe_before member)
    due := fun r code rs finished found phase link => by
      rcases inv.due r code rs finished found phase link with reported | asked | watching
      · exact .inl reported
      · simp only [State.asked, serving, decide_eq_true_eq, List.mem_append] at asked
        refine .inr (.inl ?_)
        simp only [State.asked, serving, decide_eq_true_eq, List.mem_append]
        exact asked.imp_left .inl
      · exact .inr (.inr watching) }

theorem offers (inv : Inv s) {m : ServerMessage} (serving : s.link = .serving) (noAssign : ∀ r, m ≠ .assign r)
    (noProbe : ∀ r, m ≠ .probe r) : Inv { s with send := s.offer m } := by
  unfold State.offer
  split
  · exact inv.sends serving (fun r own => absurd own (noAssign r)) noProbe
  · exact inv

theorem assigns_ref (inv : Inv s) {ref : Ref} (rs : RefState) (new : ref ∉ s.assigned) :
    Inv { s with refs := Function.update s.refs ref (some rs), assigned := s.assigned ++ [ref] } := by
  have kept {r : Ref} (member : r ∈ s.assigned) : r ∈ s.assigned ++ [ref] := List.mem_append_left _ member
  exact {
    inv with
    attempts := fun r present => kept (inv.attempts r present)
    refs := fun r present => by
      by_cases own : r = ref
      · exact List.mem_append_right _ (List.mem_singleton.mpr own)
      · simp only [Function.update_of_ne own] at present
        exact kept (inv.refs r present)
    assigns := fun r member => kept (inv.assigns r member)
    probes := fun r member => by
      obtain ⟨known, rest⟩ := inv.probes r member
      exact ⟨kept known, rest⟩
    due := fun r code rs' finished found => by
      have other : r ≠ ref := by
        rintro rfl
        replace finished : s.attempts r = some (.finished code) := finished
        exact new (inv.attempts r (by simp [finished]))
      simp only [Function.update_of_ne other] at found
      exact inv.due r code rs' finished found }

theorem forgets (inv : Inv s) (ref : Ref) : Inv { s with refs := Function.update s.refs ref none } := by
  have before {r : Ref} {rs : RefState} (found : Function.update s.refs ref none r = some rs) : s.refs r = some rs := by
    rcases update_some found with ⟨_, given⟩ | ⟨_, old⟩
    · cases given
    · exact old
  exact {
    inv with
    refs := fun r present => by
      obtain ⟨rs, found⟩ := Option.ne_none_iff_exists'.mp present
      exact inv.refs r (by simp [before found])
    due := fun r code rs finished found => inv.due r code rs finished (before found) }

/-- The hub has handled a message, which leaves its stream. -/
theorem records (inv : Inv s) {m : WorkerMessage} (file : Append) (up late : List WorkerMessage)
    (arrived : m ∈ s.up ++ s.late) (upLeft : ∀ m', m' ∈ s.up → m' = m ∨ m' ∈ up) (upOld : ∀ m' ∈ up, m' ∈ s.up)
    (lateOld : ∀ m' ∈ late, m' ∈ s.late) : Inv { s with refs := (s.handles file m).1, up, late } := by
  exact {
    inv with
    events := fun ev member => inv.events ev (by
      simp only [List.mem_append] at member ⊢
      exact member.imp (.imp_right (upOld _)) (lateOld _))
    refs := fun r present => by
      obtain ⟨rs, found⟩ := Option.ne_none_iff_exists'.mp present
      obtain ⟨old, before, _⟩ := handles_spec found
      exact inv.refs r (by simp [before])
    idle := fun idle => by
      obtain ⟨empty, rest⟩ := inv.idle idle
      refine ⟨List.eq_nil_iff_forall_not_mem.mpr fun m' member => ?_, rest⟩
      have old := upOld m' member
      rw [empty] at old
      cases old
    due := fun r code rs finished found phase link => by
      obtain ⟨old, before, ⟨ev, rfl, own, told⟩ | ⟨other, same⟩⟩ := handles_spec found
      · -- its own event, which never says that it runs
        refine absurd (told.symm.trans phase) (inv.events ev ?_)
        rw [List.append_assoc]
        exact List.mem_append_right _ arrived
      · rcases inv.due r code old finished before (same.symm.trans phase) link with reported | others
        · obtain ⟨ev, own, member⟩ := reported_iff.mp reported
          refine .inl (reported_iff.mpr ⟨ev, own, ?_⟩)
          rcases List.mem_append.mp member with out | sent
          · exact List.mem_append_left _ out
          · rcases upLeft _ sent with this | left
            · exact absurd own (other ev this.symm)
            · exact List.mem_append_right _ left
        · exact .inr others }

theorem receives (inv : Inv s) {m : WorkerMessage} {rest : List WorkerMessage} {file : Append} (up : s.up = m :: rest) :
    Inv { s with
      up := rest, refs := (s.handles file m).1
      send := (s.handles file m).2.elim s.send fun a => s.offer (.ack a) } := by
  have serving : s.link = .serving := by
    by_contra idle
    have empty := (inv.idle idle).1
    rw [up] at empty
    cases empty
  have recorded := inv.records (m := m) file rest s.late (by simp [up])
    (fun m' member => by simpa [up] using member) (fun m' member => by simp [up, member]) (fun _ member => member)
  cases reply : (s.handles file m).2 with
  | none => exact recorded
  | some a => exact recorded.offers serving nofun nofun

theorem step {label : Step} (inv : Inv s) (roomy : Roomy s label) (stepped : step s label = some t) : Inv t := by
  cases label with
  | launch ref logPath outputPath current =>
    simp only [Session.step] at stepped
    split at stepped
    · cases stepped
    · rename_i new
      have assigned := inv.assigns_ref { logPath, outputPath } new
      split at stepped
      · cases stepped
        exact assigned
      · split at stepped
        · rename_i room
          cases stepped
          refine assigned.sends room.1 (fun r own => ?_) nofun
          cases own
          exact ⟨List.mem_append_right _ (List.mem_singleton_self _), fun asked => new (inv.probes ref asked).1⟩
        · cases stepped
  | cancel ref =>
    simp only [Session.step] at stepped
    split at stepped
    · rename_i serving
      cases stepped
      exact inv.offers serving nofun nofun
    · cases stepped
  | handleAssign launched =>
    simp only [Session.step] at stepped
    split at stepped
    · rename_i ref rest down
      have popped := inv.reads down nofun
      have serving := inv.serving_of_down down
      have sent : ServerMessage.assign ref ∈ s.send ++ s.down := by simp [down]
      split at stepped
      · cases stepped
        exact popped
      · rename_i idle
        split at stepped
        · cases stepped
          refine popped.launches serving (inv.assigns ref sent) fun asked => ?_
          have before : ServerMessage.probe ref ∈ s.send ++ s.down := by
            rw [down]
            simp only [List.mem_append, List.mem_cons] at asked ⊢
            exact asked.imp_right .inr
          exact (inv.probes ref before).2.2 sent
        · cases stepped
          have gone : s.attempts ref ≠ some .running := fun running => idle (by simp [running])
          refine popped.rewatch gone ?_ fun _ _ => .inr (.inr ⟨_, rfl, nofun⟩)
          rintro ev left queue ⟨⟩
          exact ⟨rfl, nofun⟩
    · cases stepped
  | exit ref code =>
    simp only [Session.step] at stepped
    split at stepped
    · rename_i running
      cases stepped
      exact inv.exits running
    · cases stepped
  | evict ref =>
    simp only [Session.step] at stepped
    split at stepped
    · cases stepped
      exact inv.evicts ref
    · cases stepped
  | note ref output =>
    simp only [Session.step] at stepped
    split at stepped
    · rename_i terminal
      cases stepped
      refine inv.rewatch terminal.2 ?_ fun _ _ => .inr (.inr ⟨_, rfl, nofun⟩)
      rintro ev left queue ⟨⟩
      exact ⟨rfl, fun running => terminal.2 (probe_running running)⟩
    · cases stepped
  | resolve ref =>
    simp only [Session.step] at stepped
    split at stepped
    · rename_i ev left queue sending
      split at stepped
      · cases stepped
        obtain ⟨own, terminal⟩ := inv.sending ref _ _ _ sending
        refine inv.rewatch (inv.not_running sending) ?_ fun _ _ => .inr (.inr ⟨_, rfl, ?_⟩)
        · rintro _ _ _ ⟨⟩
          exact ⟨own, terminal⟩
        · intro id resolved
          split at resolved
          · cases resolved
          · exact (Option.some.inj resolved).symm
      · cases stepped
    · cases stepped
  | enqueue ref =>
    simp only [Session.step] at stepped
    split at stepped
    · rename_i ev left id sending
      obtain ⟨own, terminal⟩ := inv.sending ref _ _ _ sending
      have idle := inv.not_running sending
      split at stepped
      · -- the queue of a session that is over: the hub has asked, or the event is under way already
        rename_i dead
        cases stepped
        refine inv.rewatch idle nofun fun _ due => ?_
        rcases due with reported | asked | ⟨w, watching, sends⟩
        · exact .inl reported
        · exact .inr (.inl asked)
        · rw [sending] at watching
          cases watching
          exact absurd (sends id rfl) dead
      · split at stepped
        · cases stepped
          have queued := inv.outgoing (m := .event ev) (by rintro _ ⟨⟩; exact terminal)
          exact queued.rewatch idle nofun fun _ _ => .inl (reported_iff.mpr ⟨ev, own, by simp⟩)
        · cases stepped
    · cases stepped
  | abandon ref =>
    simp only [Session.step] at stepped
    split at stepped
    · rename_i ev queue sending
      split at stepped
      · cases stepped
        refine inv.rewatch (inv.not_running sending) nofun fun open_ _ => ?_
        rcases roomy with closed | asked | reported
        · exact absurd closed open_
        · exact .inr (.inl asked)
        · exact .inl reported
      · cases stepped
    · cases stepped
  | connect =>
    simp only [Session.step] at stepped
    split at stepped
    · rename_i closed
      cases stepped
      exact inv.connects closed
    · cases stepped
  | greet =>
    simp only [Session.step] at stepped
    split at stepped
    · rename_i opened
      cases stepped
      exact inv.greets opened
    · cases stepped
  | hello order =>
    simp only [Session.step] at stepped
    split at stepped
    · rename_i active greeting
      split at stepped
      · rename_i all
        cases stepped
        exact inv.hellos greeting all roomy
      · cases stepped
    · cases stepped
  | drop =>
    simp only [Session.step] at stepped
    split at stepped
    · cases stepped
    · cases stepped
      exact inv.drops
  | write =>
    simp only [Session.step] at stepped
    split at stepped
    · rename_i m rest serving out
      cases stepped
      exact inv.writes serving out
    · cases stepped
  | forward =>
    simp only [Session.step] at stepped
    split at stepped
    · rename_i m rest send
      cases stepped
      exact inv.forwards send
    · cases stepped
  | read =>
    simp only [Session.step] at stepped
    split at stepped
    · rename_i down
      cases stepped
      exact inv.reads down nofun
    · rename_i down
      cases stepped
      exact inv.reads down nofun
    · cases stepped
  | answerProbe output =>
    simp only [Session.step] at stepped
    split at stepped
    · rename_i ref rest down
      replace roomy : s.out.length < outCap := roomy
      simp only [roomy, if_true] at stepped
      cases stepped
      have idle := (inv.probes ref (by simp [down])).2.1
      have answered := inv.outgoing (m := .event { ref, phase := probe (s.attempts ref), output }) (by
        rintro _ ⟨⟩ running
        exact idle (probe_running running))
      refine answered.reads down fun r own => ?_
      cases own
      exact reported_iff.mpr ⟨{ ref, phase := probe (s.attempts ref), output }, rfl, by simp⟩
    · cases stepped
  | pump c =>
    simp only [Session.step] at stepped
    split at stepped
    · cases stepped
      exact inv.outgoing nofun
    · cases stepped
  | receive file =>
    simp only [Session.step] at stepped
    split at stepped
    · rename_i m rest up
      cases stepped
      exact inv.receives up
    · cases stepped
  | receiveLate m file =>
    simp only [Session.step] at stepped
    split at stepped
    · rename_i arrived
      cases stepped
      exact inv.records file s.up _ (List.mem_append_right _ arrived) (fun _ member => .inr member) (fun _ member => member)
        fun _ member => List.mem_of_mem_erase member
    · cases stepped
  | loseLate m =>
    cases stepped
    exact { inv with
      events := fun ev member => inv.events ev (by
        rw [List.mem_append] at member ⊢
        exact member.imp_right List.mem_of_mem_erase) }
  | forget ref =>
    simp only [Session.step] at stepped
    repeat' split at stepped
    · cases stepped
    · cases stepped
      exact inv.forgets ref
    · cases stepped
  | restart ended =>
    cases stepped
    exact inv.restarts ended

end Inv

/-- In every run in which each probe and each answer finds room and no event is given up, the hub
knows of every exit once the messages of the session are delivered. -/
theorem terminal_events_survive {s : State} (reached : Reach step Roomy .init s) (delivered : s.Delivered) : s.Caught := by
  have inv : Inv s := reached.invariant Inv.init fun _ _ _ inv roomy stepped => inv.step roomy stepped
  exact inv.caught delivered

/-- The first session carries the assignment and ends; the event goes into its queue and is lost with
it. In the second one the hub asks. -/
def asksAgain : List Step :=
  [.connect, .greet, .hello [], .launch "r/t/1" "task.log" "task.out" true, .forward, .handleAssign true, .exit "r/t/1" 0,
    .drop, .note "r/t/1" [], .resolve "r/t/1", .enqueue "r/t/1", .connect, .greet, .hello ["r/t/1"], .forward,
    .answerProbe [], .write, .receive .succeeds]

theorem asked_again_after_loss : ∃ s, runSteps step .init asksAgain = some s ∧ s.Delivered ∧ s.Caught ∧
    (s.refs "r/t/1").map (·.phase) = some (.exited 0) := by
  have seen : (runSteps step .init asksAgain).map (fun s => (decide s.Delivered, (s.refs "r/t/1").map (·.phase))) =
      some (true, some (.exited 0)) := by decide +kernel
  obtain ⟨s, ran, views⟩ := Option.map_eq_some_iff.mp seen
  have roomy : EachStep step Roomy .init asksAgain := by decide +kernel
  have delivered : s.Delivered := of_decide_eq_true (congrArg Prod.fst views)
  exact ⟨s, ran, delivered, terminal_events_survive (roomy.reach ran) delivered, congrArg Prod.snd views⟩

/-! A queue full of log chunks. -/

theorem pumps_fill (chunks : List LogChunk) {s : State} (serving : s.link = .serving)
    (known : ∀ c ∈ chunks, c.ref ∈ s.assigned) (room : s.out.length + chunks.length ≤ outCap) :
    runSteps step s (chunks.map .pump) = some { s with out := s.out ++ chunks.map .chunk } := by
  induction chunks generalizing s with
  | nil => simp [runSteps]
  | cons c rest ih =>
    simp only [List.length_cons] at room
    have pumped : step s (.pump c) = some { s with out := s.out ++ [.chunk c] } :=
      if_pos ⟨serving, known c List.mem_cons_self, by omega⟩
    simp only [List.map_cons, runSteps, pumped, Option.bind_some]
    have filled := ih (s := { s with out := s.out ++ [.chunk c] }) serving (fun c' member => known c' (.tail _ member))
      (by simp only [List.length_append, List.length_singleton]; omega)
    rw [filled]
    simp

theorem writes_drain (out : List WorkerMessage) {s : State} (serving : s.link = .serving) (full : s.out = out) :
    runSteps step s (List.replicate out.length .write) = some { s with out := [], up := s.up ++ out } := by
  induction out generalizing s with
  | nil =>
    cases s
    cases full
    simp [runSteps]
  | cons m rest ih =>
    have written : step s .write = some { s with out := rest, up := s.up ++ [m] } := by simp [step, serving, full]
    simp only [List.length_cons, List.replicate_succ, runSteps, written, Option.bind_some]
    have drained := ih (s := { s with out := rest, up := s.up ++ [m] }) serving rfl
    rw [drained]
    simp

/-- As before, up to the second session, while another task runs. -/
def reconnects : List Step :=
  [.connect, .greet, .hello [], .launch "r/t/1" "t.log" "t.out" true, .forward, .handleAssign true,
    .launch "r/u/1" "u.log" "u.out" true, .forward, .handleAssign true, .exit "r/t/1" 0, .drop, .note "r/t/1" [],
    .resolve "r/t/1", .enqueue "r/t/1", .connect, .greet, .hello ["r/t/1"], .forward]

/-- The log of the other task, byte by byte. -/
def backlog : List LogChunk := (List.range outCap).map fun i => ⟨"r/u/1", i, [0], false⟩

/-- The hub reads the backlog, and the worker what it has acknowledged. -/
def catchesUp : List Step :=
  List.replicate outCap (.receive .succeeds) ++ List.replicate sendCap .forward ++ List.replicate sendCap .read

/-- The answer finds the queue full. -/
def jams : List Step :=
  reconnects ++ (backlog.map .pump ++ (.answerProbe [] :: (List.replicate backlog.length .write ++ catchesUp)))

theorem jams_run {s : State} (ran : runSteps step .init reconnects = some s) :
    runSteps step .init jams = runSteps step { s with out := [], up := backlog.map .chunk, down := [] } catchesUp := by
  have seen : (runSteps step .init reconnects).any (fun s => decide (s.link = .serving ∧ s.out = [] ∧ s.up = [] ∧
      s.down = [.probe "r/t/1"] ∧ s.assigned = ["r/t/1", "r/u/1"])) = true := by decide +kernel
  rw [ran, Option.any_some, decide_eq_true_eq] at seen
  obtain ⟨serving, out, up, down, assigned⟩ := seen
  have size : backlog.length = outCap := by simp [backlog]
  have filled := pumps_fill backlog serving (by simp [backlog, assigned]) (by simp [out, size])
  have dropped : step { s with out := s.out ++ backlog.map .chunk } (.answerProbe []) =
      some { s with out := backlog.map .chunk, down := [] } := by simp [step, down, out, size]
  have drained := writes_drain (backlog.map .chunk) (s := { s with out := backlog.map .chunk, down := [] }) serving rfl
  rw [List.length_map] at drained
  rw [jams, runSteps_append, ran, Option.bind_some, runSteps_append, filled, Option.bind_some, runSteps, dropped,
    Option.bind_some, runSteps_append, drained, Option.bind_some]
  simp only [up, List.nil_append]

theorem jammed_answer_is_lost :
    ¬ ∀ s, Reach step (fun _ _ => True) .init s → s.Delivered → s.Caught := by
  intro always
  have seen : ((runSteps step .init reconnects).bind fun s =>
      (runSteps step { s with out := [], up := backlog.map .chunk, down := [] } catchesUp).map fun s =>
        (decide s.Delivered, s.attempts "r/t/1", (s.refs "r/t/1").map (·.phase))) =
      some (true, some (.finished 0), some .running) := by decide +kernel
  obtain ⟨before, ran, seen⟩ := Option.bind_eq_some_iff.mp seen
  rw [← jams_run ran] at seen
  obtain ⟨s, ran, views⟩ := Option.map_eq_some_iff.mp seen
  obtain ⟨delivered, finished, phase⟩ : s.Delivered ∧ s.attempts "r/t/1" = some (.finished 0) ∧
      (s.refs "r/t/1").map (·.phase) = some .running := by simpa using views
  obtain ⟨rs, found, running⟩ := Option.map_eq_some_iff.mp phase
  exact always s ((eachStep_true _ _).reach ran) delivered "r/t/1" 0 rs finished found running

end Cronova.Worker.Session
