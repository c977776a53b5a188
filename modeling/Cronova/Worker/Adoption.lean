import Cronova.Blocks
import Cronova.Worker.Hub

/-! Log streaming across restarts of the hub (`adoptOrphans`, `handleLogChunk` in
`internal/workerhub/hub.go`).

All attempts of a task append to one file. The hub keeps a high-water mark for each attempt; a
restart forgets the marks, and `adoptOrphans` takes them from the file again. The bytes of a file are
kept here with the attempt that they come from.
-/

set_option autoImplicit false

namespace Cronova.Worker.Adoption

open Process Blocks
open Hub (splitRef)

/-- The columns of a task instance that the hub looks at. -/
structure Row where
  executorRef : Ref := ""
  logPath : String
  deriving Repr, DecidableEq

/-- `written` is what the attempts have written to their spools. -/
structure State where
  rows : String × String → Option Row := fun _ => none
  written : Ref → Bytes := fun _ => []
  /-- The chunks in flight. -/
  up : List LogChunk := []
  refs : Ref → Option RefState := fun _ => none
  files : String → List (Ref × UInt8) := fun _ => []
  /-- Every acknowledgement that was sent. -/
  acks : List LogAck := []

inductive Step where
  /-- `expandRun`: a task instance gets its log path once. -/
  | expand (run task logPath : String)
  /-- The scheduler gives the instance to an attempt. -/
  | attach (run task : String) (ref : Ref)
  /-- `groupExec.Launch` takes a session; `lost` says that an entry was given up. -/
  | launch (ref : Ref) (lost : Bool)
  /-- The attempt writes to its spool. -/
  | write (ref : Ref) (bytes : Bytes)
  /-- A pump reads a piece of the spool. -/
  | send (ref : Ref) (offset size : Nat) (eof : Bool)
  | lose (c : LogChunk)
  | handleLogChunk (c : LogChunk) (file : Append)
  /-- The event of an attempt is recorded. -/
  | record (ref : Ref) (phase : Phase)
  | forget (ref : Ref)
  /-- A new hub process. -/
  | restart
  /-- `adoptOrphans` for one ref; the query and `os.Stat` may fail. -/
  | adopt (ref : Ref) (listed stat : Bool)

namespace State

variable (s : State)

/-- The row of the task that a ref names. -/
def rowOf (ref : Ref) : Option Row := (splitRef ref).bind fun (run, task, _) => s.rows (run, task)

/-- The log file of the task that a ref names. -/
def home (ref : Ref) : Option String := (s.rowOf ref).map (·.logPath)

/-- `OutputPath`. -/
def outputPath (logPath : String) (try_ : Int) : String := logPath ++ ".out" ++ toString try_ ++ ".json"

/-- What `adoptOrphans` finds in the store. -/
def foundPath (ref : Ref) (listed : Bool) : String :=
  match s.rowOf ref with
  | some row => if listed ∧ row.executorRef = ref then row.logPath else ""
  | none => ""

def adopts (ref : Ref) (try_ : Int) (listed stat : Bool) : State :=
  let logPath := s.foundPath ref listed
  { s with refs := Function.update s.refs ref (some {
    logPath
    outputPath := if logPath ≠ "" then outputPath logPath try_ else ""
    logHW := if logPath ≠ "" ∧ stat then (s.files logPath).length else 0 }) }

def appends (c : LogChunk) (rs : RefState) (file : Append) : State :=
  let (bytes, rs', reply) := Worker.handleLogChunk rs file c
  { s with
    refs := Function.update s.refs c.ref (some rs')
    files := Function.update s.files rs.logPath (s.files rs.logPath ++ piece c.ref bytes)
    acks := s.acks ++ reply.toList }

end State

def step (s : State) : Step → Option State
  | .expand run task logPath => match s.rows (run, task) with
    | none => some { s with rows := Function.update s.rows (run, task) (some { logPath }) }
    | some _ => none
  | .attach run task ref => (s.rows (run, task)).map fun row =>
      { s with rows := Function.update s.rows (run, task) (some { row with executorRef := ref }) }
  | .launch ref lost => match splitRef ref, s.rowOf ref with
    | some (_, _, n), some row =>
      if (s.refs ref).any fun rs => !lost && rs.phase != .unknown then some s else
      some { s with refs := Function.update s.refs ref (some {
        logPath := row.logPath, outputPath := State.outputPath row.logPath n }) }
    | _, _ => none
  | .write ref bytes => some { s with written := Function.update s.written ref (s.written ref ++ bytes) }
  | .send ref offset size eof =>
    some { s with up := s.up ++ [{ ref, offset, data := ((s.written ref).drop offset).take size, eof }] }
  | .lose c => if c ∈ s.up then some { s with up := s.up.erase c } else none
  | .handleLogChunk c file => if c ∈ s.up then
      match s.refs c.ref with
      | some rs => some (State.appends { s with up := s.up.erase c } c rs file)
      | none => some { s with up := s.up.erase c }
    else none
  | .record ref phase => (s.refs ref).map fun rs => { s with refs := Function.update s.refs ref (some { rs with phase }) }
  | .forget ref => match s.refs ref with
    | some rs => if rs.phase ≠ .running then some { s with refs := Function.update s.refs ref none } else none
    | none => none
  | .restart => some { s with refs := fun _ => none, up := [] }
  | .adopt ref listed stat => match splitRef ref, s.refs ref with
    | some (_, _, n), none => some (s.adopts ref n listed stat)
    | _, _ => some s

/-- What the log of a task should be: the mark of an attempt counts its own bytes in the file, which
are the first of its spool; nothing else is acknowledged; and the file is the concatenation of what
its attempts wrote. -/
structure Resumed (s : State) : Prop where
  mark : ∀ ref rs path, s.refs ref = some rs → s.home ref = some path →
    rs.logPath = path ∧ rs.logHW = (own ref (s.files path)).length
  spool : ∀ ref path, own ref (s.files path) <+: s.written ref
  acked : ∀ a ∈ s.acks, ∀ path, s.home a.ref = some path → a.offset ≤ (own a.ref (s.files path)).length
  whole : ∀ path, ∃ order : List Ref, order.Nodup ∧
    (s.files path).map (·.2) = order.flatMap fun ref => own ref (s.files path)

/-- An attempt whose mark the file gives: the row is found, and the file has no bytes of another. -/
def Adoptable (s : State) (ref : Ref) (listed stat : Bool) : Option String → Prop
  | some path => s.foundPath ref listed = path ∧ (stat = true ∨ s.files path = []) ∧ ∀ e ∈ s.files path, e.1 = ref
  | none => False

instance (s : State) (ref : Ref) (listed stat : Bool) : ∀ home, Decidable (Adoptable s ref listed stat home)
  | some _ => inferInstanceAs (Decidable (_ ∧ _ ∧ _))
  | none => .isFalse id

/-- The next bytes of an attempt follow on its last ones, or on those of the others. -/
def GoesOn (ref : Ref) (file : List (Ref × UInt8)) : Prop := own ref file = [] ∨ ∀ e ∈ file.getLast?, e.1 = ref

instance (ref : Ref) (file : List (Ref × UInt8)) : Decidable (GoesOn ref file) := inferInstanceAs (Decidable (_ ∨ _))

/-- Where the marks stay right: only adoptable attempts are adopted; a launch does not begin again
with an attempt that has bytes in the log; a chunk with news comes from an attempt that has the end
of the file, or nothing in it. -/
def Alone (s : State) : Step → Prop
  | .adopt ref listed stat => splitRef ref ≠ none → s.refs ref = none → Adoptable s ref listed stat (s.home ref)
  | .launch ref lost => (s.refs ref).any (fun rs => !lost && rs.phase != .unknown) = true ∨
      ∀ path ∈ s.home ref, own ref (s.files path) = []
  | .handleLogChunk c _ => ∀ rs ∈ s.refs c.ref, c.offset + c.data.length ≤ rs.logHW ∨ GoesOn c.ref (s.files rs.logPath)
  | _ => True

def Alone.decide (s : State) : ∀ label, Decidable (Alone s label)
  | .adopt ref listed stat =>
    inferInstanceAs (Decidable (splitRef ref ≠ none → s.refs ref = none → Adoptable s ref listed stat (s.home ref)))
  | .launch ref lost => inferInstanceAs (Decidable ((s.refs ref).any (fun rs => !lost && rs.phase != .unknown) = true ∨
      ∀ path ∈ s.home ref, own ref (s.files path) = []))
  | .handleLogChunk c _ => inferInstanceAs (Decidable
      (∀ rs ∈ s.refs c.ref, c.offset + c.data.length ≤ rs.logHW ∨ GoesOn c.ref (s.files rs.logPath)))
  | .expand _ _ _ | .attach _ _ _ | .write _ _ | .send _ _ _ _ | .lose _ | .record _ _ | .forget _ | .restart => .isTrue trivial

instance (s : State) (label : Step) : Decidable (Alone s label) := Alone.decide s label

theorem handleLogChunk_nameless {rs : RefState} (nameless : rs.logPath = "") (file : Append) (c : LogChunk) :
    (handleLogChunk rs file c).1 = [] := by
  unfold handleLogChunk
  dsimp only
  split
  · rfl
  · split
    · rfl
    · rfl

theorem handleLogChunk_stale {rs : RefState} {c : LogChunk} (stale : c.offset + c.data.length ≤ rs.logHW) (file : Append) :
    (handleLogChunk rs file c).1 = [] := by
  unfold handleLogChunk
  dsimp only
  split
  · rfl
  · rename_i news
    have none : c.data.drop (rs.logHW - c.offset) = [] := by
      apply List.drop_eq_nil_of_le
      omega
    split
    · rfl
    · split
      · rfl
      · cases file with
        | succeeds => exact none
        | cannotOpen | fails => rfl

/-! ### The invariant -/

structure Exact (s : State) : Prop where
  mark : ∀ ref rs, s.refs ref = some rs →
    s.home ref = some rs.logPath ∧ rs.logHW = (own ref (s.files rs.logPath)).length
  spool : ∀ ref path, own ref (s.files path) <+: s.written ref
  chunk : ∀ c ∈ s.up, c.From (s.written c.ref)
  acked : ∀ a ∈ s.acks, ∃ path, s.home a.ref = some path ∧ a.offset ≤ (own a.ref (s.files path)).length
  blocked : ∀ path, Blocked (s.files path)
  nameless : s.files "" = []

namespace Exact

variable {s t : State}

theorem resumed (exact : Exact s) : Resumed s where
  mark ref rs path known home := by
    obtain ⟨same, mark⟩ := exact.mark ref rs known
    cases same.symm.trans home
    exact ⟨rfl, mark⟩
  spool := exact.spool
  acked a sent path home := by
    obtain ⟨path', same, bound⟩ := exact.acked a sent
    cases same.symm.trans home
    exact bound
  whole path := by
    obtain ⟨order, blocked⟩ := exact.blocked path
    exact ⟨order, blocked.nodup, blocked.items⟩

/-- New rows leave the old paths alone. -/
theorem of_rows (exact : Exact s) (rows : String × String → Option Row)
    (kept : ∀ key row, s.rows key = some row → ∃ row', rows key = some row' ∧ row'.logPath = row.logPath) :
    Exact { s with rows } := by
  have home {ref : Ref} {path : String} (found : s.home ref = some path) : State.home { s with rows } ref = some path := by
    obtain ⟨row, at_, same⟩ := Option.map_eq_some_iff.mp found
    obtain ⟨⟨run, task, n⟩, split, here⟩ := Option.bind_eq_some_iff.mp at_
    obtain ⟨row', here', path'⟩ := kept (run, task) row here
    simp only [State.home, State.rowOf, split, Option.bind_some, here', Option.map_some, path', same]
  refine { exact with mark := fun ref rs known => ?_, acked := fun a sent => ?_ }
  · obtain ⟨found, mark⟩ := exact.mark ref rs known
    exact ⟨home found, mark⟩
  · obtain ⟨path, found, bound⟩ := exact.acked a sent
    exact ⟨path, home found, bound⟩

/-- An entry that is replaced by one with the same mark, or with the mark of a file without bytes of the attempt. -/
theorem of_ref (exact : Exact s) (ref : Ref) (rs : RefState) (home : s.home ref = some rs.logPath)
    (mark : rs.logHW = (own ref (s.files rs.logPath)).length) :
    Exact { s with refs := Function.update s.refs ref (some rs) } := by
  refine { exact with mark := fun other rs' known => ?_ }
  rcases update_some known with ⟨rfl, same⟩ | ⟨-, old⟩
  · cases same
    exact ⟨home, mark⟩
  · exact exact.mark other rs' old

theorem of_fewer_refs (exact : Exact s) (refs : Ref → Option RefState) (fewer : ∀ ref rs, refs ref = some rs → s.refs ref = some rs) :
    Exact { s with refs } :=
  { exact with mark := fun ref rs known => exact.mark ref rs (fewer ref rs known) }

theorem of_fewer_chunks (exact : Exact s) (up : List LogChunk) (fewer : ∀ c ∈ up, c ∈ s.up) : Exact { s with up } :=
  { exact with chunk := fun c sent => exact.chunk c (fewer c sent) }

theorem write (exact : Exact s) (ref : Ref) (bytes : Bytes) :
    Exact { s with written := Function.update s.written ref (s.written ref ++ bytes) } := by
  refine { exact with spool := fun other path => ?_, chunk := fun c sent => ?_ }
  · have before := exact.spool other path
    by_cases here : other = ref
    · subst here
      simp only [Function.update_self]
      exact before.trans (List.prefix_append _ _)
    · simpa only [Function.update_of_ne here] using before
  · have before := exact.chunk c sent
    show c.From (Function.update s.written ref (s.written ref ++ bytes) c.ref)
    by_cases here : c.ref = ref
    · subst here
      rw [Function.update_self]
      exact before.grow bytes
    · rw [Function.update_of_ne here]
      exact before

theorem send (exact : Exact s) (ref : Ref) (offset size : Nat) (eof : Bool) :
    Exact { s with up := s.up ++ [{ ref, offset, data := ((s.written ref).drop offset).take size, eof }] } := by
  refine { exact with chunk := fun c sent => ?_ }
  rcases List.mem_append.mp sent with old | new
  · exact exact.chunk c old
  · cases List.mem_singleton.mp new
    exact List.take_prefix _ _

theorem appends (exact : Exact s) {c : LogChunk} (piece_ : c.From (s.written c.ref)) {rs : RefState} (known : s.refs c.ref = some rs)
    (file : Append) (alone : c.offset + c.data.length ≤ rs.logHW ∨ GoesOn c.ref (s.files rs.logPath)) :
    Exact (s.appends c rs file) := by
  obtain ⟨home, mark⟩ := exact.mark c.ref rs known
  obtain ⟨grown, start, same, reply⟩ := handleLogChunk_spec rs file piece_
  have nameless (none : rs.logPath = "") := handleLogChunk_nameless none file c
  have stale (old : c.offset + c.data.length ≤ rs.logHW) := handleLogChunk_stale old file
  unfold State.appends
  revert grown start same reply nameless stale
  generalize handleLogChunk rs file c = result
  obtain ⟨bytes, rs', answer⟩ := result
  intro grown start same reply nameless stale
  dsimp only at grown start same reply nameless stale ⊢
  have path : rs'.logPath = rs.logPath := by rw [same]
  -- the new bytes of the attempt follow on those that are there
  have whole : own c.ref (s.files rs.logPath) ++ bytes <+: s.written c.ref := by
    obtain ⟨rest, split⟩ := exact.spool c.ref rs.logPath
    rw [← split, mark, List.drop_left] at start
    rw [← split]
    exact (List.prefix_append_right_inj _).mpr start
  have bytesOf (ref : Ref) (p : String) :
      own ref (Function.update s.files rs.logPath (s.files rs.logPath ++ piece c.ref bytes) p) =
        own ref (s.files p) ++ if ref = c.ref ∧ p = rs.logPath then bytes else [] := by
    by_cases here : p = rs.logPath
    · subst here
      rw [Function.update_self, own_append]
      by_cases self : ref = c.ref
      · simp [self]
      · simp [self, own_piece_other self]
    · simp [here]
  constructor
  · intro ref rs'' found
    dsimp only at found ⊢
    rw [bytesOf]
    rcases update_some found with ⟨rfl, given⟩ | ⟨other, old⟩
    · cases given
      rw [path]
      refine ⟨home, ?_⟩
      simp [grown, mark]
    · obtain ⟨home', mark'⟩ := exact.mark ref rs'' old
      exact ⟨home', by simp [mark', other]⟩
  · intro ref p
    dsimp only
    rw [bytesOf]
    split
    next here =>
      obtain ⟨rfl, rfl⟩ := here
      exact whole
    next => simpa using exact.spool ref p
  · exact exact.chunk
  · intro a sent
    dsimp only at sent ⊢
    rcases List.mem_append.mp sent with old | new
    · obtain ⟨p, home', bound⟩ := exact.acked a old
      refine ⟨p, home', ?_⟩
      rw [bytesOf, List.length_append]
      exact Nat.le_add_right_of_le bound
    · have given : answer = some a := by simpa using new
      obtain ⟨own_, offset⟩ := reply a given
      refine ⟨rs.logPath, own_ ▸ home, ?_⟩
      rw [bytesOf, own_, offset, grown, mark]
      simp
  · intro p
    dsimp only
    by_cases here : p = rs.logPath
    · subst here
      rw [Function.update_self]
      rcases alone with old | goesOn
      · rw [stale old]
        simpa [piece] using exact.blocked rs.logPath
      · exact (exact.blocked rs.logPath).append bytes goesOn
    · rw [Function.update_of_ne here]
      exact exact.blocked p
  · dsimp only
    by_cases here : "" = rs.logPath
    · rw [← here, Function.update_self, exact.nameless, nameless here.symm]
      rfl
    · rw [Function.update_of_ne here]
      exact exact.nameless

theorem init : Exact {} where
  mark ref rs known := by cases known
  spool ref path := List.nil_prefix
  chunk c sent := by cases sent
  acked a sent := by cases sent
  blocked path := Blocked.nil
  nameless := rfl

/-- The size of the file is the mark of an attempt that is alone in it. -/
theorem adopts (exact : Exact s) {ref : Ref} {listed stat : Bool} (adoptable : Adoptable s ref listed stat (s.home ref)) (n : Int) :
    Exact (s.adopts ref n listed stat) := by
  cases home : s.home ref with
  | none =>
    rw [home] at adoptable
    exact adoptable.elim
  | some path =>
    rw [home] at adoptable
    obtain ⟨found, read, alone⟩ := adoptable
    refine exact.of_ref ref _ (home.trans (congrArg some found.symm)) ?_
    dsimp only
    rw [found, own_length_of_alone alone]
    by_cases nameless : path = ""
    · rw [nameless, exact.nameless]
      simp
    · rcases read with stat | empty
      · simp [nameless, stat]
      · simp [empty]

theorem step {label : Step} (exact : Exact s) (alone : Alone s label) (stepped : step s label = some t) : Exact t := by
  cases label with
  | expand run task logPath =>
    simp only [Adoption.step] at stepped
    split at stepped <;> cases stepped
    next fresh =>
      refine exact.of_rows _ fun key row known => ⟨row, ?_, rfl⟩
      rw [Function.update_of_ne, known]
      rintro rfl
      rw [fresh] at known
      cases known
  | attach run task ref =>
    obtain ⟨row, here, rfl⟩ := Option.map_eq_some_iff.mp stepped
    refine exact.of_rows _ fun key row' known => ?_
    by_cases same : key = (run, task)
    · subst same
      cases here.symm.trans known
      exact ⟨{ row with executorRef := ref }, Function.update_self .., rfl⟩
    · exact ⟨row', (Function.update_of_ne same ..).trans known, rfl⟩
  | launch ref lost =>
    simp only [Adoption.step] at stepped
    split at stepped
    next run task n row split found =>
      split at stepped <;> cases stepped
      next => exact exact
      next begins =>
        have home : s.home ref = some row.logPath := by simp [State.home, found]
        have none := alone.resolve_left begins row.logPath home
        exact exact.of_ref ref _ home (by simp [none])
    · cases stepped
  | write ref bytes =>
    cases stepped
    exact exact.write ref bytes
  | send ref offset size eof =>
    cases stepped
    exact exact.send ref offset size eof
  | lose c =>
    simp only [Adoption.step] at stepped
    split at stepped <;> cases stepped
    exact exact.of_fewer_chunks _ fun _ => List.mem_of_mem_erase
  | handleLogChunk c file =>
    simp only [Adoption.step] at stepped
    split at stepped
    next sent =>
      have rest := exact.of_fewer_chunks (s.up.erase c) fun _ => List.mem_of_mem_erase
      split at stepped <;> cases stepped
      next rs known => exact rest.appends (exact.chunk c sent) known file (alone rs known)
      next => exact rest
    · cases stepped
  | record ref phase =>
    obtain ⟨rs, known, rfl⟩ := Option.map_eq_some_iff.mp stepped
    obtain ⟨home, mark⟩ := exact.mark ref rs known
    exact exact.of_ref ref _ home mark
  | forget ref =>
    simp only [Adoption.step] at stepped
    split at stepped
    next rs known =>
      split at stepped <;> cases stepped
      refine exact.of_fewer_refs _ fun other rs' found => ?_
      rcases update_some found with ⟨-, gone⟩ | ⟨-, old⟩
      · cases gone
      · exact old
    · cases stepped
  | restart =>
    cases stepped
    exact (exact.of_fewer_refs (fun _ => none) fun _ _ known => by cases known).of_fewer_chunks [] fun _ sent => by cases sent
  | adopt ref listed stat =>
    simp only [Adoption.step] at stepped
    split at stepped <;> cases stepped
    next run task n split unknown => exact exact.adopts (alone (by simp [split]) unknown) n
    next => exact exact

end Exact

/-- Where every attempt is adopted that is alone in its log, the log goes on where it was. -/
theorem resumed_of_alone {s : State} (reached : Reach step Alone {} s) : Resumed s := by
  have exact : Exact s := reached.invariant Exact.init fun _ _ _ exact alone stepped => exact.step alone stepped
  exact exact.resumed

/-- One attempt of `etl__1/load` that writes, and whose first bytes reach the hub. -/
def attempt (ref : Ref) (bytes : Bytes) (size : Nat) : List Step :=
  [.attach "etl__1" "load" ref, .launch ref false, .write ref bytes, .send ref 0 size false,
    .handleLogChunk { ref, offset := 0, data := bytes.take size, eof := false } .succeeds]

/-- The hub restarts under the first attempt, and the worker sends the spool from its start. -/
def firstTry : List Step :=
  [.expand "etl__1" "load" "load.log"] ++ attempt "etl__1/load/1" [1, 2, 3] 2 ++
    [.restart, .adopt "etl__1/load/1" true true, .send "etl__1/load/1" 0 3 true,
      .handleLogChunk { ref := "etl__1/load/1", offset := 0, data := [1, 2, 3], eof := true } .succeeds]

theorem resumed_of_alone_firstTry :
    ∃ s, runSteps step {} firstTry = some s ∧ (s.files "load.log").map (·.2) = [1, 2, 3] ∧ Resumed s := by
  have ran : (runSteps step {} firstTry).any (fun s => (s.files "load.log").map (·.2) == [1, 2, 3]) = true := by decide +kernel
  obtain ⟨s, ran, file⟩ := (Option.any_eq_true _ _).mp ran
  have alone : EachStep step Alone {} firstTry := by decide +kernel
  exact ⟨s, ran, by simpa using file, resumed_of_alone (alone.reach ran)⟩

/-- The hub restarts under the second attempt, which has sent two of its bytes. -/
def secondTry : List Step :=
  [.expand "etl__1" "load" "load.log"] ++ attempt "etl__1/load/1" [1, 2, 3] 3 ++ attempt "etl__1/load/2" [4, 5, 6, 7, 8] 2 ++
    [.restart, .adopt "etl__1/load/2" true true, .send "etl__1/load/2" 0 5 true,
      .handleLogChunk { ref := "etl__1/load/2", offset := 0, data := [4, 5, 6, 7, 8], eof := true } .succeeds]

/-- The mark is the size of the file, with the bytes of the first attempt: the rest of the second
spool is acknowledged and not in the log. -/
theorem secondTry_not_resumed :
    ∃ s, runSteps step {} secondTry = some s ∧ (s.refs "etl__1/load/2").map (·.logHW) = some 5 ∧
      own "etl__1/load/2" (s.files "load.log") = [4, 5] ∧ { ref := "etl__1/load/2", offset := 5 } ∈ s.acks ∧ ¬Resumed s := by
  have ran : (runSteps step {} secondTry).any (fun s => (s.refs "etl__1/load/2").map (·.logHW) == some 5 &&
      s.home "etl__1/load/2" == some "load.log" && own "etl__1/load/2" (s.files "load.log") == [4, 5] &&
      s.acks.contains { ref := "etl__1/load/2", offset := 5 }) = true := by
    decide +kernel
  obtain ⟨s, ran, facts⟩ := (Option.any_eq_true _ _).mp ran
  simp only [Bool.and_eq_true, beq_iff_eq, List.contains_iff_mem] at facts
  obtain ⟨⟨⟨mark, home⟩, bytes⟩, acked⟩ := facts
  refine ⟨s, ran, mark, bytes, acked, fun resumed => ?_⟩
  obtain ⟨rs, known, mark⟩ := Option.map_eq_some_iff.mp mark
  have same := (resumed.mark _ rs "load.log" known home).2
  rw [mark, bytes] at same
  cases same

end Cronova.Worker.Adoption
