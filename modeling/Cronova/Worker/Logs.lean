import Cronova.Worker.Exchange

/-! Log streaming: what the hub appends for a ref is a prefix of what the attempt wrote, and the
worker keeps its spool until the hub has all of it.

The spools are named by `sanitizeRef`, which maps different refs to one name. The statements
hold as long as no two refs with one name are assigned.
-/

set_option autoImplicit false

namespace Cronova.Worker

open Process

/-- The hub's log of an assigned ref is a prefix of what the attempt wrote, and all of it once
the spool is gone. -/
def State.LogsExact (s : State) : Prop :=
  ∀ ref ∈ s.assigned, s.appended ref <+: s.written ref ∧
    (s.spools (sanitizeRef ref) = none → s.appended ref = s.written ref)

/-- A new assignment does not share its spool with an earlier one. -/
def Distinct (s : State) : Step → Prop
  | .launch ref _ _ => ∀ other ∈ s.assigned, sanitizeRef other ≠ sanitizeRef ref
  | _ => True

instance (s : State) : ∀ label, Decidable (Distinct s label)
  | .launch ref _ _ => inferInstanceAs (Decidable (∀ other ∈ s.assigned, sanitizeRef other ≠ sanitizeRef ref))
  | .handleAssign _ _ | .write _ _ | .emit _ _ | .exit _ _ | .evict _ | .note _ | .report _ | .startPump _ _
  | .rewind _ | .pump _ | .endPump _ | .restart _ | .probe _ | .answerProbe _ | .handleAck _ | .receive _ _
  | .record _ | .handleLogChunk _ _ | .loseOffer _ | .loseUp _ | .loseDown _ | .forget _ => .isTrue trivial

/-- An entry of the worker's map agrees with the hub and with the runner. -/
structure Track.Sound (tr : Track) (appended : Bytes) (attempt : Option Attempt) : Prop where
  cursor : tr.ackOff ≤ appended.length
  exited : tr.exited = true → attempt ≠ some .running

structure LogInv (s : State) : Prop where
  apart : ∀ r ∈ s.assigned, ∀ r' ∈ s.assigned, sanitizeRef r = sanitizeRef r' → r = r'
  offers : s.offers.Nodup
  fresh : ∀ r ∈ s.offers, r ∈ s.assigned ∧ s.attempts r = none ∧ s.tracks r = none ∧ s.written r = []
  attempts : ∀ r, s.attempts r ≠ none → r ∈ s.assigned
  tracks : ∀ r tr, s.tracks r = some tr → r ∈ s.assigned ∧ tr.Sound (s.appended r) (s.attempts r)
  owned : ∀ name b, s.spools name = some b → ∃ r ∈ s.assigned, sanitizeRef r = name
  blank : ∀ r, r ∉ s.assigned → s.written r = []
  spools : ∀ r ∈ s.assigned, ∀ b, s.spools (sanitizeRef r) = some b → b = s.written r
  chunks : ∀ c, Up.chunk c ∈ s.up → c.From (s.written c.ref)
  acks : ∀ a, Down.ack a ∈ s.down → a.offset ≤ (s.appended a.ref).length
  refs : ∀ r rs, s.refs r = some rs → r ∈ s.assigned ∧ rs.logHW = (s.appended r).length
  log : ∀ r, s.appended r <+: s.written r
  removed : ∀ r ∈ s.assigned, s.spools (sanitizeRef r) = none →
    s.attempts r ≠ some .running ∧ s.appended r = s.written r

namespace LogInv

variable {s : State}

theorem init : LogInv State.init where
  apart _ member := absurd member List.not_mem_nil
  offers := List.nodup_nil
  fresh _ member := absurd member List.not_mem_nil
  attempts _ present := absurd rfl present
  tracks _ _ present := nomatch present
  owned _ _ present := nomatch present
  blank _ _ := rfl
  spools _ member := absurd member List.not_mem_nil
  chunks _ member := absurd member List.not_mem_nil
  acks _ member := absurd member List.not_mem_nil
  refs _ _ present := nomatch present
  log _ := List.nil_prefix
  removed _ member := absurd member List.not_mem_nil

theorem exact (inv : LogInv s) : s.LogsExact :=
  fun ref member => ⟨inv.log ref, fun gone => (inv.removed ref member gone).2⟩

theorem appended_eq_nil (inv : LogInv s) {r : Ref} (none : s.written r = []) : s.appended r = [] :=
  List.prefix_nil.mp (none ▸ inv.log r)

/-! ### The hub -/

theorem launch (inv : LogInv s) {ref : Ref} {logPath outputPath : String} (new : ref ∉ s.assigned)
    (distinct : ∀ other ∈ s.assigned, sanitizeRef other ≠ sanitizeRef ref) :
    LogInv { s with
      refs := Function.update s.refs ref (some { logPath, outputPath })
      offers := s.offers ++ [ref]
      assigned := s.assigned ++ [ref] } := by
  have blank := inv.blank ref new
  have unheard : s.attempts ref = none ∧ s.tracks ref = none := by
    constructor
    · by_contra known
      exact new (inv.attempts ref known)
    · cases known : s.tracks ref with
      | none => rfl
      | some tr => exact absurd (inv.tracks ref tr known).1 new
  have unused : s.spools (sanitizeRef ref) = none := by
    cases file : s.spools (sanitizeRef ref) with
    | none => rfl
    | some b =>
      obtain ⟨other, member, same⟩ := inv.owned _ b file
      exact absurd same (distinct other member)
  constructor
  · intro r member r' member' same
    rcases List.mem_append.mp member with old | last <;> rcases List.mem_append.mp member' with old' | last'
    · exact inv.apart r old r' old' same
    · cases List.mem_singleton.mp last'
      exact absurd same (distinct r old)
    · cases List.mem_singleton.mp last
      exact absurd same.symm (distinct r' old')
    · rw [List.mem_singleton.mp last, List.mem_singleton.mp last']
  · refine List.nodup_append.mpr ⟨inv.offers, List.pairwise_singleton _ _, ?_⟩
    rintro r member _ last rfl
    cases List.mem_singleton.mp last
    exact new (inv.fresh _ member).1
  · intro r member
    rcases List.mem_append.mp member with old | last
    · obtain ⟨assigned, rest⟩ := inv.fresh r old
      exact ⟨List.mem_append_left _ assigned, rest⟩
    · cases List.mem_singleton.mp last
      exact ⟨List.mem_append_right _ (List.mem_singleton_self _), unheard.1, unheard.2, blank⟩
  · exact fun r known => List.mem_append_left _ (inv.attempts r known)
  · intro r tr known
    obtain ⟨assigned, sound⟩ := inv.tracks r tr known
    exact ⟨List.mem_append_left _ assigned, sound⟩
  · intro name b file
    obtain ⟨r, member, same⟩ := inv.owned name b file
    exact ⟨r, List.mem_append_left _ member, same⟩
  · exact fun r other => inv.blank r fun old => other (List.mem_append_left _ old)
  · intro r member b file
    rcases List.mem_append.mp member with old | last
    · exact inv.spools r old b file
    · cases List.mem_singleton.mp last
      rw [unused] at file
      cases file
  · exact inv.chunks
  · exact inv.acks
  · intro r rs known
    rcases update_some known with ⟨rfl, same⟩ | ⟨_, old⟩
    · cases same
      refine ⟨List.mem_append_right _ (List.mem_singleton_self _), ?_⟩
      show 0 = (s.appended r).length
      rw [inv.appended_eq_nil blank, List.length_nil]
    · obtain ⟨assigned, mark⟩ := inv.refs r rs old
      exact ⟨List.mem_append_left _ assigned, mark⟩
  · exact inv.log
  · intro r member gone
    rcases List.mem_append.mp member with old | last
    · exact inv.removed r old gone
    · cases List.mem_singleton.mp last
      refine ⟨?_, ?_⟩
      · show s.attempts ref ≠ _
        rw [unheard.1]
        exact nofun
      · show s.appended ref = s.written ref
        rw [blank, inv.appended_eq_nil blank]

theorem appends (inv : LogInv s) {c : LogChunk} (piece : c.From (s.written c.ref)) {rs : RefState}
    (known : s.refs c.ref = some rs) (file : Append) : LogInv (s.appends c rs file) := by
  obtain ⟨assigned, mark⟩ := inv.refs c.ref rs known
  obtain ⟨grown, start, _, reply⟩ := handleLogChunk_spec rs file piece
  unfold State.appends
  revert grown start reply
  generalize handleLogChunk rs file c = result
  obtain ⟨bytes, rs', answer⟩ := result
  intro grown start reply
  dsimp only at grown start reply ⊢
  -- the new bytes follow on what is there
  have whole : s.appended c.ref ++ bytes <+: s.written c.ref := by
    obtain ⟨rest, split⟩ := inv.log c.ref
    rw [← split, mark, List.drop_left] at start
    rw [← split]
    exact (List.prefix_append_right_inj _).mpr start
  have longer (r : Ref) : (s.appended r).length ≤ (Function.update s.appended c.ref (s.appended c.ref ++ bytes) r).length := by
    by_cases own : r = c.ref
    · subst own
      rw [Function.update_self, List.length_append]
      exact Nat.le_add_right _ _
    · rw [Function.update_of_ne own]
  refine { inv with tracks := ?_, acks := ?_, refs := ?_, log := ?_, removed := ?_ }
  · intro r tr found
    obtain ⟨member, sound⟩ := inv.tracks r tr found
    exact ⟨member, Nat.le_trans sound.cursor (longer r), sound.exited⟩
  · intro a member
    rcases List.mem_append.mp member with old | new
    · exact Nat.le_trans (inv.acks a old) (longer a.ref)
    · have given : answer = some a := by simpa using new
      obtain ⟨own, offset⟩ := reply a given
      show a.offset ≤ (Function.update s.appended c.ref _ a.ref).length
      rw [own, Function.update_self, List.length_append, offset, grown, mark]
  · intro r rs' found
    rcases update_some found with ⟨rfl, same⟩ | ⟨other, old⟩
    · cases same
      refine ⟨assigned, ?_⟩
      show _ = (Function.update s.appended c.ref _ c.ref).length
      rw [Function.update_self, List.length_append, grown, mark]
    · obtain ⟨member, mark'⟩ := inv.refs r rs' old
      refine ⟨member, ?_⟩
      show _ = (Function.update s.appended c.ref _ r).length
      rw [Function.update_of_ne other, mark']
  · intro r
    by_cases own : r = c.ref
    · subst own
      simpa only [Function.update_self] using whole
    · simpa only [Function.update_of_ne own] using inv.log r
  · intro r member gone
    obtain ⟨idle, all⟩ := inv.removed r member gone
    refine ⟨idle, ?_⟩
    by_cases own : r = c.ref
    · subst own
      simp only [Function.update_self]
      apply whole.eq_of_length_le
      rw [← all, List.length_append]
      exact Nat.le_add_right _ _
    · simpa only [Function.update_of_ne own] using all

/-- A new phase leaves the log alone. -/
theorem updateRef (inv : LogInv s) {ref : Ref} {rs : RefState} (known : s.refs ref = some rs) (new : RefState)
    (same : new.logHW = rs.logHW) : LogInv { s with refs := Function.update s.refs ref (some new) } := by
  refine { inv with refs := fun r rs' found => ?_ }
  rcases update_some found with ⟨rfl, given⟩ | ⟨_, old⟩
  · cases given
    rw [same]
    exact inv.refs r rs known
  · exact inv.refs r rs' old

theorem forget (inv : LogInv s) (ref : Ref) : LogInv { s with refs := Function.update s.refs ref none } := by
  refine { inv with refs := fun r rs found => ?_ }
  rcases update_some found with ⟨_, given⟩ | ⟨_, old⟩
  · cases given
  · exact inv.refs r rs old

/-! ### The worker -/

/-- Attempts end; they do not begin again. -/
theorem fewerAttempts (inv : LogInv s) {attempts : Ref → Option Attempt}
    (running : ∀ r, attempts r = some .running → s.attempts r = some .running)
    (known : ∀ r, attempts r ≠ none → s.attempts r ≠ none) : LogInv { s with attempts } := by
  refine { inv with fresh := ?_, attempts := fun r present => inv.attempts r (known r present), tracks := ?_, removed := ?_ }
  · intro r offered
    obtain ⟨member, none, rest⟩ := inv.fresh r offered
    refine ⟨member, ?_, rest⟩
    by_contra present
    exact known r present none
  · intro r tr found
    obtain ⟨member, sound⟩ := inv.tracks r tr found
    exact ⟨member, sound.cursor, fun exited again => sound.exited exited (running r again)⟩
  · intro r member gone
    obtain ⟨idle, all⟩ := inv.removed r member gone
    exact ⟨fun again => idle (running r again), all⟩

theorem retrack (inv : LogInv s) (tracks : Ref → Option Track)
    (sound : ∀ r tr, tracks r = some tr → r ∈ s.assigned ∧ tr.Sound (s.appended r) (s.attempts r))
    (offered : ∀ r ∈ s.offers, tracks r = none) : LogInv { s with tracks } := by
  refine { inv with fresh := fun r member => ?_, tracks := sound }
  obtain ⟨assigned, none, _, blank⟩ := inv.fresh r member
  exact ⟨assigned, none, offered r member, blank⟩

/-- One entry of the map changes. -/
theorem updateTrack (inv : LogInv s) {ref : Ref} {tr : Track} (known : s.tracks ref = some tr) (new : Track)
    (sound : new.Sound (s.appended ref) (s.attempts ref)) :
    LogInv { s with tracks := Function.update s.tracks ref (some new) } := by
  apply inv.retrack
  · intro r tr' found
    rcases update_some found with ⟨rfl, given⟩ | ⟨_, old⟩
    · cases given
      exact ⟨(inv.tracks r tr known).1, sound⟩
    · exact inv.tracks r tr' old
  · intro r offered
    obtain ⟨_, _, none, _⟩ := inv.fresh r offered
    rw [Function.update_of_ne]
    · exact none
    · rintro rfl
      rw [known] at none
      cases none

theorem writes (inv : LogInv s) {ref : Ref} (running : s.attempts ref = some .running) (bytes : Bytes) :
    LogInv (s.writes ref bytes) := by
  have member : ref ∈ s.assigned := inv.attempts ref (by rw [running]; exact nofun)
  obtain ⟨b, file⟩ : ∃ b, s.spools (sanitizeRef ref) = some b := by
    cases file : s.spools (sanitizeRef ref) with
    | none => exact absurd running (inv.removed ref member file).1
    | some b => exact ⟨b, rfl⟩
  cases inv.spools ref member b file
  have elsewhere {r : Ref} (assigned : r ∈ s.assigned) (other : r ≠ ref) : sanitizeRef r ≠ sanitizeRef ref :=
    fun same => other (inv.apart r assigned ref member same)
  unfold State.writes
  rw [file]
  refine { inv with fresh := ?_, owned := ?_, blank := ?_, spools := ?_, chunks := ?_, log := ?_, removed := ?_ }
  · intro r offered
    obtain ⟨assigned, idle, untracked, blank⟩ := inv.fresh r offered
    refine ⟨assigned, idle, untracked, ?_⟩
    show Function.update s.written ref _ r = []
    rw [Function.update_of_ne]
    · exact blank
    · rintro rfl
      rw [running] at idle
      cases idle
  · intro name b found
    rcases update_some found with ⟨rfl, _⟩ | ⟨_, old⟩
    · exact ⟨ref, member, rfl⟩
    · exact inv.owned name b old
  · intro r unassigned
    have other : r ≠ ref := by
      rintro rfl
      exact unassigned member
    show Function.update s.written ref _ r = []
    rw [Function.update_of_ne other]
    exact inv.blank r unassigned
  · intro r assigned b found
    show b = Function.update s.written ref _ r
    by_cases own : r = ref
    · subst own
      simp only [Function.update_self, Option.map_some, Option.some.injEq] at found ⊢
      exact found.symm
    · simp only [Function.update_of_ne own, Function.update_of_ne (elsewhere assigned own)] at found ⊢
      exact inv.spools r assigned b found
  · intro c sent
    show c.From (Function.update s.written ref _ c.ref)
    by_cases own : c.ref = ref
    · rw [own, Function.update_self]
      exact (own ▸ inv.chunks c sent).grow bytes
    · rw [Function.update_of_ne own]
      exact inv.chunks c sent
  · intro r
    show s.appended r <+: Function.update s.written ref _ r
    by_cases own : r = ref
    · subst own
      rw [Function.update_self]
      exact (inv.log r).trans (List.prefix_append _ _)
    · rw [Function.update_of_ne own]
      exact inv.log r
  · intro r assigned gone
    by_cases own : r = ref
    · subst own
      simp at gone
    · simp only [Function.update_of_ne own, Function.update_of_ne (elsewhere assigned own)] at gone ⊢
      exact inv.removed r assigned gone

/-- An offer is taken up: the entry is there, and the log begins with the header. -/
theorem begins (inv : LogInv s) {ref : Ref} (offered : ref ∈ s.offers) (header : Bytes) (attempt : Option Attempt) :
    LogInv { s with
      offers := s.offers.erase ref
      tracks := Function.update s.tracks ref (some {})
      spools := Function.update s.spools (sanitizeRef ref) (some header)
      written := Function.update s.written ref header
      attempts := Function.update s.attempts ref attempt } := by
  obtain ⟨member, _, _, blank⟩ := inv.fresh ref offered
  have empty := inv.appended_eq_nil blank
  have elsewhere {r : Ref} (assigned : r ∈ s.assigned) (other : r ≠ ref) : sanitizeRef r ≠ sanitizeRef ref :=
    fun same => other (inv.apart r assigned ref member same)
  constructor
  · exact inv.apart
  · exact inv.offers.erase ref
  · intro r left
    obtain ⟨other, old⟩ := (List.Nodup.mem_erase_iff inv.offers).mp left
    simp only [Function.update_of_ne other]
    exact inv.fresh r old
  · intro r known
    by_cases own : r = ref
    · exact own ▸ member
    · simp only [Function.update_of_ne own] at known
      exact inv.attempts r known
  · intro r tr found
    rcases update_some found with ⟨rfl, given⟩ | ⟨other, old⟩
    · cases given
      exact ⟨member, Nat.zero_le _, nofun⟩
    · simp only [Function.update_of_ne other]
      exact inv.tracks r tr old
  · intro name b found
    rcases update_some found with ⟨rfl, _⟩ | ⟨_, old⟩
    · exact ⟨ref, member, rfl⟩
    · exact inv.owned name b old
  · intro r unassigned
    have other : r ≠ ref := by
      rintro rfl
      exact unassigned member
    simp only [Function.update_of_ne other]
    exact inv.blank r unassigned
  · intro r assigned b found
    by_cases own : r = ref
    · subst own
      simp only [Function.update_self, Option.some.injEq] at found ⊢
      exact found.symm
    · simp only [Function.update_of_ne own, Function.update_of_ne (elsewhere assigned own)] at found ⊢
      exact inv.spools r assigned b found
  · intro c sent
    by_cases own : c.ref = ref
    · have piece := inv.chunks c sent
      rw [own, blank] at piece
      have nothing : c.data = [] := by simpa [LogChunk.From] using piece
      show c.data <+: _
      rw [nothing]
      exact List.nil_prefix
    · simp only [Function.update_of_ne own]
      exact inv.chunks c sent
  · exact inv.acks
  · exact inv.refs
  · intro r
    by_cases own : r = ref
    · subst own
      show s.appended r <+: _
      rw [empty]
      exact List.nil_prefix
    · simp only [Function.update_of_ne own]
      exact inv.log r
  · intro r assigned gone
    by_cases own : r = ref
    · subst own
      simp at gone
    · simp only [Function.update_of_ne own, Function.update_of_ne (elsewhere assigned own)] at gone ⊢
      exact inv.removed r assigned gone

theorem assigns (inv : LogInv s) {ref : Ref} (offered : ref ∈ s.offers) (launching : Launching) :
    LogInv (s.assigns ref launching) := by
  obtain ⟨member, idle, untracked, _⟩ := inv.fresh ref offered
  have fewer : LogInv { s with offers := s.offers.erase ref, tracks := Function.update s.tracks ref (some {}) } := by
    refine { inv with offers := inv.offers.erase ref, fresh := fun r left => ?_, tracks := fun r tr found => ?_ }
    · obtain ⟨other, old⟩ := (List.Nodup.mem_erase_iff inv.offers).mp left
      simp only [Function.update_of_ne other]
      exact inv.fresh r old
    · rcases update_some found with ⟨rfl, given⟩ | ⟨_, old⟩
      · cases given
        exact ⟨member, Nat.zero_le _, nofun⟩
      · exact inv.tracks r tr old
  unfold State.assigns State.tracked
  simp only [untracked, idle, Option.any_none, Bool.false_eq_true, if_false, ne_eq, not_true]
  cases launching with
  | noLog => exact { fewer with chunks := fun c sent => inv.chunks c (by simpa using sent) }
  | failed header =>
    have begun := inv.begins offered header none
    rw [← idle, Function.update_eq_self] at begun
    exact { begun with chunks := fun c sent => begun.chunks c (by simpa using sent) }
  | started header =>
    have begun := inv.begins offered header (some .running)
    exact { begun with }

theorem notes (inv : LogInv s) {ref : Ref} (idle : s.attempts ref ≠ some .running) : LogInv (s.notes ref) := by
  unfold State.notes
  split
  · cases known : s.tracks ref with
    | none =>
      have same : Function.update s.tracks ref none = s.tracks := known ▸ Function.update_eq_self ref s.tracks
      simp only [Option.map_none, same]
      exact { inv with }
    | some tr =>
      have sound := (inv.tracks ref tr known).2
      have marked := inv.updateTrack known { tr with exited := true } ⟨sound.cursor, fun _ => idle⟩
      exact { marked with }
  · exact { inv with }

/-- An acknowledgement moves the cursor at most to the high-water mark. -/
theorem acks_sound (inv : LogInv s) {a : LogAck} {tr : Track} (known : s.tracks a.ref = some tr)
    (below : a.offset ≤ (s.appended a.ref).length) : (tr.acked a).Sound (s.appended a.ref) (s.attempts a.ref) := by
  have sound := (inv.tracks a.ref tr known).2
  unfold Track.acked
  split
  · exact ⟨below, sound.exited⟩
  · split
    · exact ⟨below, sound.exited⟩
    · exact sound

/-- A collected spool has reached the hub as a whole. -/
theorem collects (inv : LogInv s) {ref : Ref} {tr : Track} (known : s.tracks ref = some tr)
    (collectable : tr.collectable (s.spools (sanitizeRef ref)) = true) (outFiles : String → Option Bytes) :
    LogInv { s with
      spools := Function.update s.spools (sanitizeRef ref) none
      outFiles
      tracks := Function.update s.tracks ref (some { tr with collected := true }) } := by
  obtain ⟨member, sound⟩ := inv.tracks ref tr known
  unfold Track.collectable at collectable
  obtain ⟨exited, acked⟩ := Bool.and_eq_true_iff.mp collectable
  obtain ⟨b, file, enough⟩ := (Option.any_eq_true ..).mp acked
  cases inv.spools ref member b file
  have short : (s.written ref).length ≤ tr.ackOff := of_decide_eq_true enough
  have all : s.appended ref = s.written ref := (inv.log ref).eq_of_length_le (Nat.le_trans short sound.cursor)
  have marked := inv.updateTrack known { tr with collected := true } ⟨sound.cursor, sound.exited⟩
  refine { marked with owned := ?_, spools := ?_, removed := ?_ }
  · intro name b found
    rcases update_some found with ⟨_, given⟩ | ⟨_, old⟩
    · cases given
    · exact inv.owned name b old
  · intro r assigned b found
    rcases update_some found with ⟨_, given⟩ | ⟨_, old⟩
    · cases given
    · exact inv.spools r assigned b old
  · intro r assigned gone
    by_cases own : r = ref
    · subst own
      exact ⟨sound.exited exited, all⟩
    · have elsewhere : sanitizeRef r ≠ sanitizeRef ref := fun same => own (inv.apart r assigned ref member same)
      simp only [Function.update_of_ne elsewhere] at gone
      exact inv.removed r assigned gone

theorem acks_step (inv : LogInv s) {a : LogAck} {tr : Track} (known : s.tracks a.ref = some tr)
    (below : a.offset ≤ (s.appended a.ref).length) : LogInv (s.acks a tr) := by
  have moved := inv.updateTrack known (tr.acked a) (inv.acks_sound known below)
  unfold State.acks
  dsimp only
  split
  · rename_i collectable
    have own : Function.update s.tracks a.ref (some (tr.acked a)) a.ref = some (tr.acked a) := Function.update_self ..
    have collected := moved.collects own collectable (Function.update s.outFiles (sanitizeRef a.ref) none)
    rwa [Function.update_idem] at collected
  · exact moved

theorem restarts (inv : LogInv s) (ended : Ref → Option Int) : LogInv (s.restarts ended) := by
  have running (r : Ref) (still : s.survivor ended r = some .running) : s.attempts r = some .running := by
    unfold State.survivor at still
    split at still
    · assumption
    · exact still
  have known (r : Ref) (present : s.survivor ended r ≠ none) : s.attempts r ≠ none := by
    intro absent
    unfold State.survivor at present
    rw [absent] at present
    exact present rfl
  have survived := inv.fewerAttempts running known
  have tracked := survived.retrack (fun r => if s.survivor ended r = some .running then some {} else none)
    (fun r tr found => ?_) (fun r offered => ?_)
  · exact { tracked with }
  · split at found
    · rename_i still
      cases found
      exact ⟨inv.attempts r (by rw [running r still]; exact nofun), Nat.zero_le _, nofun⟩
    · cases found
  · rw [if_neg]
    intro still
    obtain ⟨_, idle, _⟩ := inv.fresh r offered
    rw [running r still] at idle
    cases idle

theorem pumps_round (inv : LogInv s) {p : Pump} {tr : Track} {spool : Bytes} (tracked : s.tracks p.ref = some tr)
    (file : s.spools (sanitizeRef p.ref) = some spool) {c : LogChunk} (sent : (p.round tr.exited spool).1 = some c) :
    c.From (s.written c.ref) := by
  obtain ⟨own, piece⟩ := Pump.round_from sent
  cases inv.spools p.ref (inv.tracks p.ref tr tracked).1 spool file
  rwa [own]

/-- One step. -/
theorem step (inv : LogInv s) (label : Step) (distinct : Distinct s label) {t : State}
    (stepped : Worker.step s label = some t) : LogInv t := by
  cases label with
  | launch ref logPath outputPath =>
    simp only [Worker.step] at stepped
    split at stepped
    · cases stepped
    · rename_i new
      cases stepped
      exact inv.launch new distinct
  | handleAssign ref launching =>
    simp only [Worker.step] at stepped
    split at stepped
    · rename_i offered
      cases stepped
      exact inv.assigns offered launching
    · cases stepped
  | write ref bytes =>
    simp only [Worker.step] at stepped
    split at stepped
    · rename_i running
      cases stepped
      exact inv.writes running bytes
    · cases stepped
  | emit ref bytes =>
    simp only [Worker.step] at stepped
    split at stepped
    · cases stepped
      exact { inv with }
    · cases stepped
  | exit ref code =>
    simp only [Worker.step] at stepped
    split at stepped
    · rename_i running
      cases stepped
      apply inv.fewerAttempts
      · intro r again
        rcases update_some again with ⟨_, given⟩ | ⟨_, old⟩
        · cases given
        · exact old
      · intro r present absent
        by_cases own : r = ref
        · rw [own, running] at absent
          cases absent
        · rw [Function.update_of_ne own] at present
          exact present absent
    · cases stepped
  | evict ref =>
    simp only [Worker.step] at stepped
    split at stepped
    · cases stepped
      apply inv.fewerAttempts
      · intro r again
        rcases update_some again with ⟨_, given⟩ | ⟨_, old⟩
        · cases given
        · exact old
      · intro r present absent
        by_cases own : r = ref
        · rw [own, Function.update_self] at present
          exact present rfl
        · rw [Function.update_of_ne own] at present
          exact present absent
    · cases stepped
  | note ref =>
    simp only [Worker.step] at stepped
    split at stepped
    · rename_i may
      cases stepped
      exact inv.notes may.2
    · cases stepped
  | report ref =>
    simp only [Worker.step] at stepped
    split at stepped
    · cases stepped
      exact { inv with chunks := fun c sent => inv.chunks c (by simpa [State.reports] using sent) }
    · cases stepped
  | startPump id ref =>
    simp only [Worker.step] at stepped
    split at stepped
    · split at stepped
      · cases stepped
      · cases stepped
        exact { inv with }
    · cases stepped
  | rewind id =>
    simp only [Worker.step] at stepped
    split at stepped
    · split at stepped
      · rename_i tr tracked
        split at stepped
        · cases stepped
          have sound := (inv.tracks _ tr tracked).2
          have moved := inv.updateTrack tracked { tr with rewind := false } ⟨sound.cursor, sound.exited⟩
          exact { moved with }
        · cases stepped
      · cases stepped
    · cases stepped
  | pump id =>
    simp only [Worker.step] at stepped
    split at stepped
    · rename_i p _
      split at stepped
      · rename_i tr spool tracked file
        cases stepped
        refine { inv with chunks := fun c sent => ?_ }
        rcases List.mem_append.mp sent with old | new
        · exact inv.chunks c old
        · exact inv.pumps_round tracked file (by simpa using new)
      · cases stepped
    · cases stepped
  | endPump id =>
    cases stepped
    exact { inv with }
  | restart ended =>
    cases stepped
    exact inv.restarts ended
  | probe ref =>
    simp only [Worker.step] at stepped
    split at stepped
    · split at stepped
      · cases stepped
        exact { inv with acks := fun a sent => inv.acks a (by simpa using sent) }
      · cases stepped
    · cases stepped
  | answerProbe ref =>
    simp only [Worker.step] at stepped
    split at stepped
    · cases stepped
      exact { inv with
        acks := fun a sent => inv.acks a (List.mem_of_mem_erase sent)
        chunks := fun c sent => inv.chunks c (by simpa using sent) }
    · cases stepped
  | handleAck a =>
    simp only [Worker.step] at stepped
    split at stepped
    · rename_i arrived
      have below := inv.acks a arrived
      have rest : LogInv { s with down := s.down.erase (.ack a) } :=
        { inv with acks := fun b sent => inv.acks b (List.mem_of_mem_erase sent) }
      split at stepped
      · rename_i tr known
        cases stepped
        split
        · exact rest
        · exact rest.acks_step known below
      · cases stepped
        exact rest
    · cases stepped
  | receive ev ok =>
    simp only [Worker.step] at stepped
    split at stepped
    · have rest : LogInv { s with up := s.up.erase (.event ev) } :=
        { inv with chunks := fun c sent => inv.chunks c (List.mem_of_mem_erase sent) }
      split at stepped
      · cases stepped
        exact { rest with }
      · cases stepped
        exact rest
    · cases stepped
  | record ev =>
    simp only [Worker.step] at stepped
    split at stepped
    · cases stepped
      split
      · rename_i rs known
        have recorded := inv.updateRef known (rs.record ev) rfl
        exact { recorded with }
      · exact { inv with }
    · cases stepped
  | handleLogChunk c file =>
    simp only [Worker.step] at stepped
    split at stepped
    · rename_i arrived
      have piece := inv.chunks c arrived
      have rest : LogInv { s with up := s.up.erase (.chunk c) } :=
        { inv with chunks := fun c' sent => inv.chunks c' (List.mem_of_mem_erase sent) }
      split at stepped
      · rename_i rs known
        cases stepped
        exact rest.appends piece known file
      · cases stepped
        exact rest
    · cases stepped
  | loseOffer ref =>
    cases stepped
    exact { inv with
      offers := inv.offers.erase ref
      fresh := fun r left => inv.fresh r (List.mem_of_mem_erase left) }
  | loseUp m =>
    cases stepped
    exact { inv with chunks := fun c sent => inv.chunks c (List.mem_of_mem_erase sent) }
  | loseDown m =>
    cases stepped
    exact { inv with acks := fun a sent => inv.acks a (List.mem_of_mem_erase sent) }
  | forget ref =>
    simp only [Worker.step] at stepped
    split at stepped
    · split at stepped
      · cases stepped
      · cases stepped
        exact inv.forget ref
    · cases stepped

end LogInv

/-- Log streaming is exact in every run that assigns no two refs with one spool. -/
theorem log_streaming_exact {s : State} (reached : Reach step Distinct .init s) : s.LogsExact := by
  have inv : LogInv s := reached.invariant LogInv.init fun _ label _ inv distinct stepped => inv.step label distinct stepped
  exact inv.exact

/-! Two attempts whose refs differ in the place of a slash. -/

def firstRef : Ref := "d__event_1/a__event_2_t/1"

def secondRef : Ref := "d__event_1_a__event_2/t/1"

/-- One attempt, from its assignment to the removal of its spool. -/
def streamed : List Step :=
  [.launch firstRef "task.log" "task.out", .handleAssign firstRef (.started [1]), .startPump 0 firstRef,
    .write firstRef [2], .pump 0, .handleLogChunk ⟨firstRef, 0, [1, 2], false⟩ .succeeds, .exit firstRef 0,
    .note firstRef, .handleAck { ref := firstRef, offset := 2 }]

theorem streamed_in_full : ∃ s, runSteps step .init streamed = some s ∧ s.LogsExact ∧
    s.spools (sanitizeRef firstRef) = none ∧ s.appended firstRef = [1, 2] := by
  have seen : (runSteps step .init streamed).map (fun s => (s.spools (sanitizeRef firstRef), s.appended firstRef)) =
      some (none, [1, 2]) := by decide +kernel
  obtain ⟨s, ran, views⟩ := Option.map_eq_some_iff.mp seen
  have distinct : EachStep step Distinct .init streamed := by decide +kernel
  exact ⟨s, ran, log_streaming_exact (distinct.reach ran), congrArg Prod.fst views, congrArg Prod.snd views⟩

/-- The second attempt truncates the spool that the pump of the first one reads. -/
def shared : List Step :=
  [.launch firstRef "first.log" "first.out", .handleAssign firstRef (.started [1, 2]), .startPump 0 firstRef, .pump 0,
    .handleLogChunk ⟨firstRef, 0, [1, 2], false⟩ .succeeds, .launch secondRef "second.log" "second.out",
    .handleAssign secondRef (.started [3, 4, 5]), .pump 0, .handleLogChunk ⟨firstRef, 2, [5], false⟩ .succeeds]

theorem shared_spool_mixes_logs : ¬ ∀ s, Reach step (fun _ _ => True) .init s → s.LogsExact := by
  intro exact
  have seen : (runSteps step .init shared).map (fun s => (s.assigned.head?, s.appended firstRef, s.written firstRef)) =
      some (some firstRef, [1, 2, 5], [1, 2]) := by decide +kernel
  obtain ⟨s, ran, views⟩ := Option.map_eq_some_iff.mp seen
  obtain ⟨assigned, appended, written⟩ : s.assigned.head? = some firstRef ∧ s.appended firstRef = [1, 2, 5] ∧
      s.written firstRef = [1, 2] := by simpa using views
  have start := (exact s ((eachStep_true _ _).reach ran) firstRef (List.mem_of_head? assigned)).1
  rw [appended, written] at start
  exact absurd start (by decide)

end Cronova.Worker
