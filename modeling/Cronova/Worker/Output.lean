import Cronova.Worker.Exchange

/-! Task outputs: the hub has written the output of an attempt before it records the exit.

The worker finds the output through the entry of its map, which `handleAck` and a restart drop,
and in the local file, which `handleAck` removes. An event that is made after that carries no
output, and the hub records the exit all the same.
-/

set_option autoImplicit false

namespace Cronova.Worker

open Process

/-- The output of the attempt, if it has one that an event can carry, is at the hub. -/
def State.Has (s : State) (ref : Ref) : Prop :=
  ∀ output, s.emitted ref = some output → output ≠ [] → output.length ≤ maxOutput → output ∈ s.stored ref

/-- No exit with code 0 is on record without the output of its attempt. -/
def State.OutputsKept (s : State) : Prop :=
  ∀ ref rs, s.refs ref = some rs → rs.phase = .exited 0 → s.Has ref

/-- The hub still waits for the exit and for the output. -/
def State.awaits (s : State) (ref : Ref) : Bool :=
  ((s.refs ref).any fun rs => decide (rs.phase ≠ .exited 0)) &&
    (s.emitted ref).any fun output => decide (output ≠ [] ∧ output.length ≤ maxOutput ∧ output ∉ s.stored ref)

/-- The output file is as the attempt left it, and the entry that leads to it is there. -/
def State.inPlace (s : State) (ref : Ref) (tracked : Bool) : Bool :=
  tracked && decide (s.outFiles (sanitizeRef ref) = s.emitted ref)

/-- An output that the hub waits for is in place when the exit is reported; the hub has a path for
it and can write there. -/
def Intact (s : State) : Step → Prop
  | .launch _ _ outputPath => outputPath ≠ ""
  | .report ref => ∀ tracked, s.watchers ref = some (.noted (.exited 0) tracked) → s.awaits ref = true →
      s.inPlace ref tracked = true
  | .answerProbe ref => s.attempts ref = some (.finished 0) → s.awaits ref = true → s.inPlace ref (s.tracked ref) = true
  | .receive ev ok => ev.output ≠ [] → ok = true
  | _ => True

instance (s : State) : ∀ label, Decidable (Intact s label)
  | .launch _ _ outputPath => inferInstanceAs (Decidable (outputPath ≠ ""))
  | .report ref => inferInstanceAs (Decidable (∀ tracked, s.watchers ref = some (.noted (.exited 0) tracked) →
      s.awaits ref = true → s.inPlace ref tracked = true))
  | .answerProbe ref => inferInstanceAs (Decidable (s.attempts ref = some (.finished 0) → s.awaits ref = true →
      s.inPlace ref (s.tracked ref) = true))
  | .receive ev ok => inferInstanceAs (Decidable (ev.output ≠ [] → ok = true))
  | .handleAssign _ _ | .write _ _ | .emit _ _ | .exit _ _ | .evict _ | .note _ | .startPump _ _ | .rewind _ | .pump _
  | .endPump _ | .restart _ | .probe _ | .handleAck _ | .record _ | .handleLogChunk _ _ | .loseOffer _ | .loseUp _
  | .loseDown _ | .forget _ => .isTrue trivial

/-- The attempt is over for good. -/
structure State.Settled (s : State) (ref : Ref) : Prop where
  assigned : ref ∈ s.assigned
  taken : ref ∉ s.offers
  idle : s.attempts ref ≠ some .running

/-- The event brings the output along, or is not needed for it. -/
def State.Brings (s : State) (ev : TaskEvent) : Prop :=
  ∀ output, s.emitted ev.ref = some output → output ≠ [] → output.length ≤ maxOutput →
    ev.output = output ∨ output ∈ s.stored ev.ref ∨ s.refs ev.ref = none

structure OutInv (s : State) : Prop where
  offers : s.offers.Nodup
  fresh : ∀ r ∈ s.offers, r ∈ s.assigned ∧ s.attempts r = none
  attempts : ∀ r, s.attempts r ≠ none → r ∈ s.assigned
  watchers : ∀ r w, s.watchers r = some w → r ∈ s.assigned ∧ r ∉ s.offers ∧ (w ≠ .polling → s.attempts r ≠ some .running)
  known : ∀ r rs, s.refs r = some rs → r ∈ s.assigned ∧ rs.outputPath ≠ ""
  events : ∀ ev, Up.event ev ∈ s.up → ev.phase = .exited 0 → s.Settled ev.ref ∧ s.Brings ev
  recording : ∀ ev ∈ s.recording, ev.phase = .exited 0 → s.Settled ev.ref ∧ (s.refs ev.ref = none ∨ s.Has ev.ref)
  refs : ∀ r rs, s.refs r = some rs → rs.phase = .exited 0 → s.Settled r ∧ s.Has r

namespace OutInv

variable {s t : State}

theorem init : OutInv State.init where
  offers := List.nodup_nil
  fresh _ member := absurd member List.not_mem_nil
  attempts _ present := absurd rfl present
  watchers _ _ present := nomatch present
  known _ _ present := nomatch present
  events _ member := absurd member List.not_mem_nil
  recording _ member := absurd member List.not_mem_nil
  refs _ _ present := nomatch present

theorem kept (inv : OutInv s) : s.OutputsKept := fun ref rs found exited => (inv.refs ref rs found exited).2

/-- What every step leaves alone: an attempt that is over stays so, with its output, and the hub
loses nothing. -/
structure Onward (s t : State) : Prop where
  settled : ∀ r, s.Settled r → t.Settled r ∧ t.emitted r = s.emitted r
  stored : ∀ r output, output ∈ s.stored r → output ∈ t.stored r
  gone : ∀ r, s.Settled r → s.refs r = none → t.refs r = none

theorem Onward.has (onward : Onward s t) {r : Ref} (settled : s.Settled r) (has : s.Has r) : t.Has r := by
  intro output emitted some_ short
  rw [(onward.settled r settled).2] at emitted
  exact onward.stored r output (has output emitted some_ short)

theorem Onward.brings (onward : Onward s t) {ev : TaskEvent} (settled : s.Settled ev.ref) (brings : s.Brings ev) :
    t.Brings ev := by
  intro output emitted some_ short
  rw [(onward.settled ev.ref settled).2] at emitted
  rcases brings output emitted some_ short with carried | there | none
  · exact .inl carried
  · exact .inr (.inl (onward.stored _ output there))
  · exact .inr (.inr (onward.gone _ settled none))

/-- What is new in a step, and the rest from before it. -/
theorem carry (inv : OutInv s) (onward : Onward s t) (offers : t.offers.Nodup)
    (fresh : ∀ r ∈ t.offers, r ∈ t.assigned ∧ t.attempts r = none) (attempts : ∀ r, t.attempts r ≠ none → r ∈ t.assigned)
    (watchers : ∀ r w, t.watchers r = some w → r ∈ t.assigned ∧ r ∉ t.offers ∧ (w ≠ .polling → t.attempts r ≠ some .running))
    (known : ∀ r rs, t.refs r = some rs → r ∈ t.assigned ∧ rs.outputPath ≠ "")
    (events : ∀ ev, Up.event ev ∈ t.up → Up.event ev ∈ s.up ∨ (ev.phase = .exited 0 → t.Settled ev.ref ∧ t.Brings ev))
    (recording : ∀ ev ∈ t.recording, ev ∈ s.recording ∨
      (ev.phase = .exited 0 → t.Settled ev.ref ∧ (t.refs ev.ref = none ∨ t.Has ev.ref)))
    (refs : ∀ r rs, t.refs r = some rs → rs.phase = .exited 0 →
      (∃ old, s.refs r = some old ∧ old.phase = .exited 0) ∨ t.Settled r ∧ t.Has r) : OutInv t := by
  refine ⟨offers, fresh, attempts, watchers, known, fun ev sent exited => ?_, fun ev member exited => ?_, fun r rs found exited => ?_⟩
  · rcases events ev sent with old | new
    · obtain ⟨settled, brings⟩ := inv.events ev old exited
      exact ⟨(onward.settled _ settled).1, onward.brings settled brings⟩
    · exact new exited
  · rcases recording ev member with old | new
    · obtain ⟨settled, none | has⟩ := inv.recording ev old exited
      · exact ⟨(onward.settled _ settled).1, .inl (onward.gone _ settled none)⟩
      · exact ⟨(onward.settled _ settled).1, .inr (onward.has settled has)⟩
    · exact new exited
  · rcases refs r rs found exited with ⟨old, found', exited'⟩ | new
    · obtain ⟨settled, has⟩ := inv.refs r old found' exited'
      exact ⟨(onward.settled _ settled).1, onward.has settled has⟩
    · exact new

/-- A step that concerns neither attempts nor outputs. -/
theorem quiet (inv : OutInv s) (offers : t.offers = s.offers) (assigned : t.assigned = s.assigned)
    (attempts : t.attempts = s.attempts) (watchers : t.watchers = s.watchers) (emitted : t.emitted = s.emitted)
    (stored : t.stored = s.stored) (recording : t.recording = s.recording)
    (events : ∀ ev, Up.event ev ∈ t.up → Up.event ev ∈ s.up)
    (refs : ∀ r rs, t.refs r = some rs → ∃ old, s.refs r = some old ∧ old.phase = rs.phase ∧ old.outputPath = rs.outputPath)
    (gone : ∀ r, s.refs r = none → t.refs r = none) : OutInv t := by
  have onward : Onward s t := by
    refine ⟨fun r settled => ⟨⟨?_, ?_, ?_⟩, by rw [emitted]⟩, fun r output member => ?_, fun r _ => gone r⟩
    · exact assigned ▸ settled.assigned
    · exact offers ▸ settled.taken
    · exact attempts ▸ settled.idle
    · rw [stored]
      exact member
  apply inv.carry onward
  · exact offers ▸ inv.offers
  · rw [offers, assigned, attempts]
    exact inv.fresh
  · rw [attempts, assigned]
    exact inv.attempts
  · rw [watchers, assigned, offers, attempts]
    exact inv.watchers
  · intro r rs found
    obtain ⟨old, found', _, path⟩ := refs r rs found
    rw [assigned, ← path]
    exact inv.known r old found'
  · exact fun ev sent => .inl (events ev sent)
  · rw [recording]
    exact fun ev member => .inl member
  · intro r rs found exited
    obtain ⟨old, found', phase, _⟩ := refs r rs found
    exact .inl ⟨old, found', phase.trans exited⟩

/-! ### The worker -/

/-- Attempts end, and a new process forgets its watchers; nothing else changes. -/
theorem fewerAttempts (inv : OutInv s) (attempts : Ref → Option Attempt)
    (running : ∀ r, attempts r = some .running → s.attempts r = some .running)
    (known : ∀ r, attempts r ≠ none → s.attempts r ≠ none) {watchers : Ref → Option Watch}
    {tracks : Ref → Option Track} {pumps : Nat → Option Pump}
    (watched : ∀ r w, watchers r = some w → s.watchers r = some w ∨ r ∈ s.assigned ∧ r ∉ s.offers ∧ w = .polling) :
    OutInv { s with attempts, watchers, tracks, pumps } := by
  have onward : Onward s { s with attempts, watchers, tracks, pumps } :=
    ⟨fun r settled => ⟨⟨settled.assigned, settled.taken, fun again => settled.idle (running r again)⟩, rfl⟩,
      fun _ _ member => member, fun _ _ none => none⟩
  apply inv.carry onward inv.offers
  · intro r offered
    obtain ⟨member, none⟩ := inv.fresh r offered
    refine ⟨member, ?_⟩
    by_contra present
    exact known r present none
  · exact fun r present => inv.attempts r (known r present)
  · intro r w found
    rcases watched r w found with old | ⟨member, taken, polling⟩
    · obtain ⟨member, taken, idle⟩ := inv.watchers r w old
      exact ⟨member, taken, fun noted again => idle noted (running r again)⟩
    · exact ⟨member, taken, fun noted => absurd polling noted⟩
  · exact inv.known
  · exact fun ev sent => .inl sent
  · exact fun ev member => .inl member
  · exact fun r rs found exited => .inl ⟨rs, found, exited⟩

theorem restarts (inv : OutInv s) (ended : Ref → Option Int) : OutInv (s.restarts ended) := by
  have before {r : Ref} (found : s.survivor ended r = some .running) : s.attempts r = some .running := by
    unfold State.survivor at found
    split at found
    · assumption
    · exact found
  apply inv.fewerAttempts _ (fun _ => before)
  · intro r present none
    simp [State.survivor, none] at present
  · intro r w found
    split at found
    · rename_i running
      cases found
      refine .inr ⟨inv.attempts r (by simp [before running]), fun offered => ?_, rfl⟩
      have none := (inv.fresh r offered).2
      rw [before running] at none
      cases none
    · cases found

theorem launch (inv : OutInv s) {ref : Ref} {logPath outputPath : String} (new : ref ∉ s.assigned) (path : outputPath ≠ "") :
    OutInv { s with
      refs := Function.update s.refs ref (some { logPath, outputPath })
      offers := s.offers ++ [ref]
      assigned := s.assigned ++ [ref] } := by
  have other {r : Ref} (member : r ∈ s.assigned) : r ≠ ref := by
    rintro rfl
    exact new member
  have untaken {r : Ref} (member : r ∈ s.assigned) (taken : r ∉ s.offers) : r ∉ s.offers ++ [ref] := by
    intro offered
    rcases List.mem_append.mp offered with old | last
    · exact taken old
    · exact other member (List.mem_singleton.mp last)
  have onward : Onward s { s with
      refs := Function.update s.refs ref (some { logPath, outputPath })
      offers := s.offers ++ [ref]
      assigned := s.assigned ++ [ref] } := by
    refine ⟨fun r settled => ⟨⟨?_, ?_, settled.idle⟩, rfl⟩, fun _ _ member => member, fun r settled none => ?_⟩
    · exact List.mem_append_left _ settled.assigned
    · exact untaken settled.assigned settled.taken
    · simpa only [Function.update_of_ne (other settled.assigned)] using none
  apply inv.carry onward
  · refine List.nodup_append.mpr ⟨inv.offers, List.pairwise_singleton _ _, ?_⟩
    rintro r member _ last rfl
    exact other (inv.fresh r member).1 (List.mem_singleton.mp last)
  · intro r offered
    rcases List.mem_append.mp offered with old | last
    · obtain ⟨member, none⟩ := inv.fresh r old
      exact ⟨List.mem_append_left _ member, none⟩
    · cases List.mem_singleton.mp last
      refine ⟨List.mem_append_right _ (List.mem_singleton_self _), ?_⟩
      by_contra present
      exact new (inv.attempts _ present)
  · exact fun r present => List.mem_append_left _ (inv.attempts r present)
  · intro r w found
    obtain ⟨member, taken, idle⟩ := inv.watchers r w found
    exact ⟨List.mem_append_left _ member, untaken member taken, idle⟩
  · intro r rs found
    rcases update_some found with ⟨rfl, given⟩ | ⟨_, old⟩
    · cases given
      exact ⟨List.mem_append_right _ (List.mem_singleton_self _), path⟩
    · obtain ⟨member, path'⟩ := inv.known r rs old
      exact ⟨List.mem_append_left _ member, path'⟩
  · exact fun ev sent => .inl sent
  · exact fun ev member => .inl member
  · intro r rs found exited
    rcases update_some found with ⟨rfl, given⟩ | ⟨_, old⟩
    · cases given
      cases exited
    · exact .inl ⟨rs, old, exited⟩

/-- An offer is taken up or lost. -/
theorem untracked (inv : OutInv s) {ref : Ref} (attempt : Option Attempt) (offered : ref ∈ s.offers)
    (watchers : Ref → Option Watch) (tracks : Ref → Option Track) (spools : String → Option Bytes)
    (written : Ref → Bytes) (up : List Up)
    (watched : ∀ r w, watchers r = some w → s.watchers r = some w ∨ r = ref ∧ w = .polling)
    (events : ∀ ev, Up.event ev ∈ up → Up.event ev ∈ s.up ∨ ev.phase ≠ .exited 0) :
    OutInv { s with
      offers := s.offers.erase ref, attempts := Function.update s.attempts ref attempt
      watchers, tracks, spools, written, up } := by
  have taken : ref ∉ s.offers.erase ref := fun again => ((List.Nodup.mem_erase_iff inv.offers).mp again).1 rfl
  have member := (inv.fresh ref offered).1
  have other {r : Ref} (settled : r ∉ s.offers) : r ≠ ref := by
    rintro rfl
    exact settled offered
  have onward : Onward s { s with
      offers := s.offers.erase ref, attempts := Function.update s.attempts ref attempt
      watchers, tracks, spools, written, up } := by
    refine ⟨fun r settled => ⟨⟨settled.assigned, ?_, ?_⟩, rfl⟩, fun _ _ member => member, fun _ _ none => none⟩
    · exact fun again => settled.taken (List.mem_of_mem_erase again)
    · simpa only [Function.update_of_ne (other settled.taken)] using settled.idle
  apply inv.carry onward
  · exact inv.offers.erase ref
  · intro r left
    obtain ⟨different, old⟩ := (List.Nodup.mem_erase_iff inv.offers).mp left
    simpa only [Function.update_of_ne different] using inv.fresh r old
  · intro r present
    by_cases own : r = ref
    · exact own ▸ member
    · simp only [Function.update_of_ne own] at present
      exact inv.attempts r present
  · intro r w found
    rcases watched r w found with old | ⟨rfl, rfl⟩
    · obtain ⟨member', taken', idle⟩ := inv.watchers r w old
      refine ⟨member', fun again => taken' (List.mem_of_mem_erase again), ?_⟩
      simpa only [Function.update_of_ne (other taken')] using idle
    · exact ⟨member, taken, fun noted => absurd rfl noted⟩
  · exact inv.known
  · intro ev sent
    rcases events ev sent with old | failed
    · exact .inl old
    · exact .inr fun exited => absurd exited failed
  · exact fun ev member => .inl member
  · exact fun r rs found exited => .inl ⟨rs, found, exited⟩

theorem assigns (inv : OutInv s) {ref : Ref} (offered : ref ∈ s.offers) (launching : Launching) :
    OutInv (s.assigns ref launching) := by
  have idle := (inv.fresh ref offered).2
  have same : Function.update s.attempts ref none = s.attempts := idle ▸ Function.update_eq_self ref s.attempts
  have polled (r : Ref) (w : Watch) (found : Function.update s.watchers ref (some .polling) r = some w) :
      s.watchers r = some w ∨ r = ref ∧ w = .polling := by
    rcases update_some found with ⟨own, given⟩ | ⟨_, old⟩
    · cases given
      exact .inr ⟨own, rfl⟩
    · exact .inl old
  have failed (ev : TaskEvent) (sent : Up.event ev ∈ s.up ++ [.event { ref, phase := .exited 127 }]) :
      Up.event ev ∈ s.up ∨ ev.phase ≠ .exited 0 := by
    rcases List.mem_append.mp sent with old | last
    · exact .inl old
    · cases List.mem_singleton.mp last
      exact .inr fun exited => by cases exited
  unfold State.assigns
  simp only [idle, ne_eq, not_true, if_false]
  split
  · have left := inv.untracked none offered s.watchers s.tracks s.spools s.written s.up (fun _ _ found => .inl found)
      (fun _ sent => .inl sent)
    rwa [same] at left
  · cases launching with
    | noLog =>
      have begun := inv.untracked none offered s.watchers (Function.update s.tracks ref (some {})) s.spools s.written _
        (fun _ _ found => .inl found) failed
      rwa [same] at begun
    | failed header =>
      have begun := inv.untracked none offered s.watchers (Function.update s.tracks ref (some {}))
        (Function.update s.spools (sanitizeRef ref) (some header)) (Function.update s.written ref header) _
        (fun _ _ found => .inl found) failed
      rwa [same] at begun
    | started header =>
      exact inv.untracked (some .running) offered _ _ _ _ s.up polled (fun _ sent => .inl sent)

theorem loseOffer (inv : OutInv s) (ref : Ref) : OutInv { s with offers := s.offers.erase ref } := by
  by_cases offered : ref ∈ s.offers
  · have left := inv.untracked none offered s.watchers s.tracks s.spools s.written s.up (fun _ _ found => .inl found)
      (fun _ sent => .inl sent)
    have idle := (inv.fresh ref offered).2
    have same : Function.update s.attempts ref none = s.attempts := idle ▸ Function.update_eq_self ref s.attempts
    rwa [same] at left
  · rw [List.erase_of_not_mem offered]
    exact inv

/-- An attempt that runs is not over, so its output may still change. -/
theorem emits (inv : OutInv s) {ref : Ref} (running : s.attempts ref = some .running) (bytes : Bytes) :
    OutInv (s.emits ref bytes) := by
  have onward : Onward s (s.emits ref bytes) := by
    refine ⟨fun r settled => ⟨⟨settled.assigned, settled.taken, settled.idle⟩, ?_⟩, fun _ _ member => member,
      fun _ _ none => none⟩
    have other : r ≠ ref := by
      rintro rfl
      exact settled.idle running
    simp only [State.emits, Function.update_of_ne other]
  exact inv.carry onward inv.offers inv.fresh inv.attempts inv.watchers inv.known (fun _ sent => .inl sent)
    (fun _ member => .inl member) fun _ rs found exited => .inl ⟨rs, found, exited⟩

/-- The exit is noted, and only its watcher and its entry change. -/
theorem rewatch (inv : OutInv s) (watchers : Ref → Option Watch) (tracks : Ref → Option Track) (up : List Up)
    (watched : ∀ r w, watchers r = some w → r ∈ s.assigned ∧ r ∉ s.offers ∧ (w ≠ .polling → s.attempts r ≠ some .running))
    (events : ∀ ev, Up.event ev ∈ up → Up.event ev ∈ s.up ∨ (ev.phase = .exited 0 → s.Settled ev.ref ∧ s.Brings ev)) :
    OutInv { s with watchers, tracks, up } := by
  have onward : Onward s { s with watchers, tracks, up } :=
    ⟨fun r settled => ⟨⟨settled.assigned, settled.taken, settled.idle⟩, rfl⟩, fun _ _ member => member,
      fun _ _ none => none⟩
  refine inv.carry onward inv.offers inv.fresh inv.attempts watched inv.known (fun ev sent => ?_)
    (fun _ member => .inl member) fun _ rs found exited => .inl ⟨rs, found, exited⟩
  rcases events ev sent with old | new
  · exact .inl old
  · refine .inr fun exited => ?_
    obtain ⟨settled, brings⟩ := new exited
    exact ⟨(onward.settled _ settled).1, onward.brings settled brings⟩

theorem notes (inv : OutInv s) {ref : Ref} (polling : s.watchers ref = some .polling)
    (idle : s.attempts ref ≠ some .running) : OutInv (s.notes ref) := by
  obtain ⟨member, taken, _⟩ := inv.watchers ref _ polling
  refine inv.rewatch _ _ s.up (fun r w found => ?_) fun _ sent => .inl sent
  rcases update_some found with ⟨rfl, _⟩ | ⟨_, old⟩
  · exact ⟨member, taken, fun _ => idle⟩
  · exact inv.watchers r w old

/-- An output in place is what the event carries. -/
theorem brings_of_inPlace {ref : Ref} {tracked : Bool} {ev : TaskEvent} (own : ev.ref = ref)
    (carried : ev.output = if tracked then readOutput (s.outFiles (sanitizeRef ref)) else [])
    (intact : s.awaits ref = true → s.inPlace ref tracked = true) (inv : OutInv s) : s.Brings ev := by
  subst own
  intro output emitted some_ short
  by_cases there : output ∈ s.stored ev.ref
  · exact .inr (.inl there)
  cases found : s.refs ev.ref with
  | none => exact .inr (.inr rfl)
  | some rs =>
    by_cases exited : rs.phase = .exited 0
    · exact .inr (.inl ((inv.refs _ rs found exited).2 output emitted some_ short))
    · have placed := intact (by simp [State.awaits, found, exited, emitted, some_, short, there])
      obtain ⟨there, file⟩ := Bool.and_eq_true_iff.mp placed
      have same : s.outFiles (sanitizeRef ev.ref) = some output := (of_decide_eq_true file).trans emitted
      rw [there, same] at carried
      exact .inl (carried.trans (by simp [readOutput, Option.filter, short]))

theorem reports (inv : OutInv s) {ref : Ref} {seen : Phase} {tracked : Bool}
    (noted : s.watchers ref = some (.noted seen tracked))
    (intact : ∀ tracked, s.watchers ref = some (.noted (.exited 0) tracked) → s.awaits ref = true →
      s.inPlace ref tracked = true) : OutInv (s.reports ref seen tracked) := by
  obtain ⟨member, taken, idle⟩ := inv.watchers ref _ noted
  refine inv.rewatch _ s.tracks _ (fun r w found => ?_) fun ev sent => ?_
  · rcases update_some found with ⟨_, given⟩ | ⟨_, old⟩
    · cases given
    · exact inv.watchers r w old
  · rcases List.mem_append.mp sent with old | last
    · exact .inl old
    · cases List.mem_singleton.mp last
      refine .inr fun exited => ⟨⟨member, taken, idle nofun⟩, ?_⟩
      obtain rfl : seen = .exited 0 := exited
      exact brings_of_inPlace rfl rfl (intact tracked noted) inv

theorem answersProbe (inv : OutInv s) {ref : Ref} (down : List Down)
    (intact : s.attempts ref = some (.finished 0) → s.awaits ref = true → s.inPlace ref (s.tracked ref) = true) :
    OutInv { s with
      down
      up := s.up ++ [.event (probeAnswer ref (s.attempts ref) (s.tracked ref) (s.outFiles (sanitizeRef ref)))] } := by
  have answered := inv.rewatch s.watchers s.tracks
    (s.up ++ [.event (probeAnswer ref (s.attempts ref) (s.tracked ref) (s.outFiles (sanitizeRef ref)))]) inv.watchers
    fun ev sent => ?_
  · exact answered.quiet rfl rfl rfl rfl rfl rfl rfl (fun _ sent => sent) (fun _ rs found => ⟨rs, found, rfl, rfl⟩)
      fun _ none => none
  · rcases List.mem_append.mp sent with old | last
    · exact .inl old
    · cases List.mem_singleton.mp last
      refine .inr fun exited => ?_
      have finished : s.attempts ref = some (.finished 0) := by
        cases attempt : s.attempts ref with
        | none => simp [probeAnswer, Worker.probe, attempt] at exited
        | some a => cases a with
          | running => simp [probeAnswer, Worker.probe, attempt] at exited
          | finished code =>
            simp only [probeAnswer, Worker.probe, attempt, Phase.exited.injEq] at exited
            rw [exited]
      refine ⟨⟨inv.attempts ref (by simp [finished]), fun offered => ?_, by simp [probeAnswer, finished]⟩, ?_⟩
      · have none := (inv.fresh ref offered).2
        rw [finished] at none
        cases none
      · exact brings_of_inPlace rfl (by simp [probeAnswer, finished, Worker.probe]) (intact finished) inv

/-! ### The hub -/

theorem receives (inv : OutInv s) {ev : TaskEvent} {rs : RefState} {ok : Bool} (arrived : Up.event ev ∈ s.up)
    (found : s.refs ev.ref = some rs) (written : ev.output ≠ [] → ok = true) :
    OutInv (State.receives { s with up := s.up.erase (.event ev) } ev rs ok) := by
  have path := (inv.known ev.ref rs found).2
  have stored (r : Ref) (output : Bytes) (member : output ∈ s.stored r) :
      output ∈ (State.receives { s with up := s.up.erase (.event ev) } ev rs ok).stored r := by
    cases carried : outputToWrite rs ev with
    | none => simpa only [State.receives, carried] using member
    | some output' =>
      simp only [State.receives, carried]
      split
      · by_cases own : r = ev.ref
        · subst own
          simp [member]
        · simpa [Function.update_of_ne own] using member
      · exact member
  have onward : Onward s (State.receives { s with up := s.up.erase (.event ev) } ev rs ok) :=
    ⟨fun r settled => ⟨⟨settled.assigned, settled.taken, settled.idle⟩, rfl⟩, stored, fun _ _ none => none⟩
  refine inv.carry onward inv.offers inv.fresh inv.attempts inv.watchers inv.known
    (fun _ sent => .inl (List.mem_of_mem_erase sent)) (fun other member => ?_)
    fun _ rs found exited => .inl ⟨rs, found, exited⟩
  rcases List.mem_append.mp member with old | last
  · exact .inl old
  · cases List.mem_singleton.mp last
    refine .inr fun exited => ?_
    obtain ⟨settled, brings⟩ := inv.events _ arrived exited
    refine ⟨(onward.settled _ settled).1, .inr fun output emitted some_ short => ?_⟩
    rcases brings output emitted some_ short with carried | there | none
    · subst carried
      simp [State.receives, outputToWrite, some_, path, written some_]
    · exact stored _ output there
    · rw [found] at none
      cases none

theorem records (inv : OutInv s) {ev : TaskEvent} (pending : ev ∈ s.recording) :
    OutInv { s with
      recording := s.recording.erase ev
      refs := match s.refs ev.ref with
        | some rs => Function.update s.refs ev.ref (some (rs.record ev))
        | none => s.refs } := by
  cases found : s.refs ev.ref with
  | none =>
    have onward : Onward s { s with recording := s.recording.erase ev } :=
      ⟨fun r settled => ⟨⟨settled.assigned, settled.taken, settled.idle⟩, rfl⟩, fun _ _ member => member,
        fun _ _ none => none⟩
    exact inv.carry onward inv.offers inv.fresh inv.attempts inv.watchers inv.known (fun _ sent => .inl sent)
      (fun _ member => .inl (List.mem_of_mem_erase member)) fun _ rs found exited => .inl ⟨rs, found, exited⟩
  | some rs =>
    have onward : Onward s { s with
        recording := s.recording.erase ev
        refs := Function.update s.refs ev.ref (some (rs.record ev)) } := by
      refine ⟨fun r settled => ⟨⟨settled.assigned, settled.taken, settled.idle⟩, rfl⟩, fun _ _ member => member,
        fun r settled none => ?_⟩
      have other : r ≠ ev.ref := by
        rintro rfl
        rw [found] at none
        cases none
      simpa only [Function.update_of_ne other] using none
    refine inv.carry onward inv.offers inv.fresh inv.attempts inv.watchers (fun r rs' found' => ?_) (fun _ sent => .inl sent)
      (fun _ member => .inl (List.mem_of_mem_erase member)) fun r rs' found' exited => ?_
    · rcases update_some found' with ⟨rfl, given⟩ | ⟨_, old⟩
      · cases given
        exact inv.known ev.ref rs found
      · exact inv.known r rs' old
    · rcases update_some found' with ⟨rfl, given⟩ | ⟨_, old⟩
      · cases given
        obtain ⟨settled, none | has⟩ := inv.recording ev pending exited
        · rw [found] at none
          cases none
        · exact .inr ⟨(onward.settled _ settled).1, onward.has settled has⟩
      · exact .inl ⟨rs', old, exited⟩

/-- `sweep` drops only what is over. -/
theorem forgets (inv : OutInv s) (ref : Ref) : OutInv { s with refs := Function.update s.refs ref none } := by
  have onward : Onward s { s with refs := Function.update s.refs ref none } := by
    refine ⟨fun r settled => ⟨⟨settled.assigned, settled.taken, settled.idle⟩, rfl⟩, fun _ _ member => member,
      fun r _ none => ?_⟩
    by_cases own : r = ref
    · simp only [own, Function.update_self]
    · simpa only [Function.update_of_ne own] using none
  have earlier {r : Ref} {rs : RefState} (found : Function.update s.refs ref none r = some rs) : s.refs r = some rs := by
    rcases update_some found with ⟨_, given⟩ | ⟨_, old⟩
    · cases given
    · exact old
  exact inv.carry onward inv.offers inv.fresh inv.attempts inv.watchers (fun r rs found => inv.known r rs (earlier found))
    (fun _ sent => .inl sent) (fun _ member => .inl member) fun _ rs found exited => .inl ⟨rs, earlier found, exited⟩

theorem appends (inv : OutInv s) {c : LogChunk} {rs : RefState} (found : s.refs c.ref = some rs) (file : Append) :
    OutInv (s.appends c rs file) := by
  obtain ⟨phase, path⟩ := handleLogChunk_keeps rs file c
  apply inv.quiet (t := s.appends c rs file) rfl rfl rfl rfl rfl rfl rfl (fun _ sent => sent)
  · intro r rs' found'
    rcases update_some found' with ⟨rfl, given⟩ | ⟨_, old⟩
    · cases given
      exact ⟨rs, found, phase.symm, path.symm⟩
    · exact ⟨rs', old, rfl, rfl⟩
  · intro r none
    have other : r ≠ c.ref := by
      rintro rfl
      rw [found] at none
      cases none
    simpa only [State.appends, Function.update_of_ne other] using none

/-- The bookkeeping of the log, and messages that are lost. -/
theorem transit (inv : OutInv s) (tracks : Ref → Option Track) (pumps : Nat → Option Pump)
    (spools outFiles : String → Option Bytes) (written : Ref → Bytes) (down : List Down) {up : List Up}
    (events : ∀ ev, Up.event ev ∈ up → Up.event ev ∈ s.up) :
    OutInv { s with tracks, pumps, spools, outFiles, written, down, up } :=
  inv.quiet rfl rfl rfl rfl rfl rfl rfl events (fun _ rs found => ⟨rs, found, rfl, rfl⟩) fun _ none => none

theorem acks (inv : OutInv s) (a : LogAck) (tr : Track) : OutInv (s.acks a tr) := by
  unfold State.acks
  dsimp only
  split
  · exact inv.transit _ s.pumps _ _ s.written s.down fun _ sent => sent
  · exact inv.transit _ s.pumps s.spools s.outFiles s.written s.down fun _ sent => sent

theorem step {label : Step} (inv : OutInv s) (intact : Intact s label) (stepped : step s label = some t) : OutInv t := by
  cases label with
  | launch ref logPath outputPath =>
    simp only [Worker.step] at stepped
    split at stepped
    · cases stepped
    · rename_i new
      cases stepped
      exact inv.launch new intact
  | handleAssign ref launching =>
    simp only [Worker.step] at stepped
    split at stepped
    · rename_i offered
      cases stepped
      exact inv.assigns offered launching
    · cases stepped
  | write ref bytes =>
    simp only [Worker.step] at stepped
    split at stepped
    · cases stepped
      exact inv.transit s.tracks s.pumps _ s.outFiles _ s.down fun _ sent => sent
    · cases stepped
  | emit ref bytes =>
    simp only [Worker.step] at stepped
    split at stepped
    · rename_i running
      cases stepped
      exact inv.emits running bytes
    · cases stepped
  | exit ref code =>
    simp only [Worker.step] at stepped
    split at stepped
    · rename_i running
      cases stepped
      apply inv.fewerAttempts _ ?_ ?_ fun _ _ found => .inl found
      · intro r found
        rcases update_some found with ⟨_, given⟩ | ⟨_, old⟩
        · cases given
        · exact old
      · intro r present
        by_cases own : r = ref
        · simp [own, running]
        · simpa only [Function.update_of_ne own] using present
    · cases stepped
  | evict ref =>
    simp only [Worker.step] at stepped
    split at stepped
    · cases stepped
      apply inv.fewerAttempts _ ?_ ?_ fun _ _ found => .inl found
      · intro r found
        rcases update_some found with ⟨_, given⟩ | ⟨_, old⟩
        · cases given
        · exact old
      · intro r present
        by_cases own : r = ref
        · simp [own] at present
        · simpa only [Function.update_of_ne own] using present
    · cases stepped
  | note ref =>
    simp only [Worker.step] at stepped
    split at stepped
    · rename_i ended
      cases stepped
      exact inv.notes ended.1 ended.2
    · cases stepped
  | report ref =>
    simp only [Worker.step] at stepped
    split at stepped
    · rename_i seen tracked noted
      cases stepped
      exact inv.reports noted intact
    · cases stepped
  | startPump id ref =>
    simp only [Worker.step] at stepped
    split at stepped
    · split at stepped
      · cases stepped
      · cases stepped
        exact inv.transit s.tracks _ s.spools s.outFiles s.written s.down fun _ sent => sent
    · cases stepped
  | rewind id =>
    simp only [Worker.step] at stepped
    repeat' split at stepped
    · cases stepped
      exact inv.transit _ _ s.spools s.outFiles s.written s.down fun _ sent => sent
    all_goals cases stepped
  | pump id =>
    simp only [Worker.step] at stepped
    repeat' split at stepped
    · cases stepped
      refine inv.transit s.tracks _ s.spools s.outFiles s.written s.down fun ev sent => ?_
      rcases List.mem_append.mp sent with old | new
      · exact old
      · simp at new
    all_goals cases stepped
  | endPump id =>
    cases stepped
    exact inv.transit s.tracks _ s.spools s.outFiles s.written s.down fun _ sent => sent
  | restart ended =>
    cases stepped
    exact inv.restarts ended
  | probe ref =>
    simp only [Worker.step] at stepped
    repeat' split at stepped
    · cases stepped
      exact inv.transit s.tracks s.pumps s.spools s.outFiles s.written _ fun _ sent => sent
    all_goals cases stepped
  | answerProbe ref =>
    simp only [Worker.step] at stepped
    split at stepped
    · cases stepped
      exact inv.answersProbe _ intact
    · cases stepped
  | handleAck a =>
    simp only [Worker.step] at stepped
    have popped := inv.transit s.tracks s.pumps s.spools s.outFiles s.written (s.down.erase (.ack a)) fun _ sent => sent
    split at stepped
    · split at stepped
      · cases stepped
        split
        · exact popped
        · exact popped.acks a _
      · cases stepped
        exact popped
    · cases stepped
  | receive ev ok =>
    simp only [Worker.step] at stepped
    split at stepped
    · rename_i arrived
      split at stepped
      · rename_i rs found
        cases stepped
        exact inv.receives arrived found intact
      · cases stepped
        exact inv.transit s.tracks s.pumps s.spools s.outFiles s.written s.down fun _ sent => List.mem_of_mem_erase sent
    · cases stepped
  | record ev =>
    simp only [Worker.step] at stepped
    split at stepped
    · rename_i pending
      cases stepped
      exact inv.records pending
    · cases stepped
  | handleLogChunk c file =>
    simp only [Worker.step] at stepped
    have popped := inv.transit s.tracks s.pumps s.spools s.outFiles s.written s.down
      fun ev (sent : Up.event ev ∈ s.up.erase (.chunk c)) => List.mem_of_mem_erase sent
    split at stepped
    · split at stepped
      · rename_i rs found
        cases stepped
        exact popped.appends found file
      · cases stepped
        exact popped
    · cases stepped
  | loseOffer ref =>
    cases stepped
    exact inv.loseOffer ref
  | loseUp m =>
    cases stepped
    exact inv.transit s.tracks s.pumps s.spools s.outFiles s.written s.down fun _ sent => List.mem_of_mem_erase sent
  | loseDown m =>
    cases stepped
    exact inv.transit s.tracks s.pumps s.spools s.outFiles s.written _ fun _ sent => sent
  | forget ref =>
    simp only [Worker.step] at stepped
    repeat' split at stepped
    · cases stepped
    · cases stepped
      exact inv.forgets ref
    · cases stepped

end OutInv

/-- In every order of exits, acknowledgements, drops, restarts and probes in which each awaited
exit is reported with its output in place, the output is stored before the exit is on record. -/
theorem output_stored_before_exit {s : State} (reached : Reach step Intact .init s) : s.OutputsKept := by
  have inv : OutInv s := reached.invariant OutInv.init fun _ _ _ inv intact stepped => inv.step intact stepped
  exact inv.kept

/-- The watcher reports the exit while the spool is still there. -/
def kept : List Step :=
  [.launch "r/t/1" "task.log" "task.out", .handleAssign "r/t/1" (.started [1]), .emit "r/t/1" [9], .exit "r/t/1" 0,
    .note "r/t/1", .report "r/t/1", .receive { ref := "r/t/1", phase := .exited 0, output := [9] } true,
    .record { ref := "r/t/1", phase := .exited 0, output := [9] }]

theorem kept_with_output : ∃ s, runSteps step .init kept = some s ∧ s.OutputsKept ∧
    (s.refs "r/t/1").map (·.phase) = some (.exited 0) ∧ s.stored "r/t/1" = [[9]] := by
  have seen : (runSteps step .init kept).map (fun s => ((s.refs "r/t/1").map (·.phase), s.stored "r/t/1")) =
      some (some (.exited 0), [[9]]) := by decide +kernel
  obtain ⟨s, ran, views⟩ := Option.map_eq_some_iff.mp seen
  have intact : EachStep step Intact .init kept := by decide +kernel
  exact ⟨s, ran, output_stored_before_exit (intact.reach ran), congrArg Prod.fst views, congrArg Prod.snd views⟩

/-- The last acknowledgement arrives after the watcher has marked the exit and before it reads
the output. -/
def collectedFirst : List Step :=
  [.launch "r/t/1" "task.log" "task.out", .handleAssign "r/t/1" (.started [1]), .emit "r/t/1" [9],
    .startPump 0 "r/t/1", .pump 0, .handleLogChunk ⟨"r/t/1", 0, [1], false⟩ .succeeds, .exit "r/t/1" 0, .note "r/t/1",
    .handleAck { ref := "r/t/1", offset := 1 }, .report "r/t/1",
    .receive { ref := "r/t/1", phase := .exited 0 } true, .record { ref := "r/t/1", phase := .exited 0 }]

theorem collected_output_is_lost : ¬ ∀ s, Reach step (fun _ _ => True) .init s → s.OutputsKept := by
  intro always
  have seen : (runSteps step .init collectedFirst).map (fun s =>
      ((s.refs "r/t/1").map (·.phase), s.emitted "r/t/1", s.stored "r/t/1")) =
      some (some (.exited 0), some [9], []) := by decide +kernel
  obtain ⟨s, ran, views⟩ := Option.map_eq_some_iff.mp seen
  obtain ⟨phase, emitted, stored⟩ : (s.refs "r/t/1").map (·.phase) = some (.exited 0) ∧ s.emitted "r/t/1" = some [9] ∧
      s.stored "r/t/1" = [] := by simpa using views
  obtain ⟨rs, found, exited⟩ := Option.map_eq_some_iff.mp phase
  have there := always s ((eachStep_true _ _).reach ran) "r/t/1" rs found exited [9] emitted (by decide) (by decide)
  rw [stored] at there
  cases there

end Cronova.Worker
