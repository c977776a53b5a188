import Cronova.Executor.Restart
import Mathlib.Data.List.Nodup

/-! What a restarted executor answers.

The exit file always reads as the code that the shell has recorded. An attempt stands in one of few
ways: its record is being saved, waits in the directory, is looked at, or the registry has its entry.
-/

set_option autoImplicit false

namespace Cronova.Executor.Restart

open Process Text

theorem readExitFile_code : ∀ code : Code, readExitFile (some (toString code.val)) = some (code : Int) := by decide +kernel

theorem readExitFile_empty : readExitFile (some "") = none := by decide +kernel

/-- The code is the one that was recorded, or none was and none will be. -/
def Fair (wrapper : Wrapper) (answer : Int) : Prop := (∃ code : Code, wrapper.code? = some code ∧ answer = code) ∨ wrapper = .gone none

/-- The record that a launch leaves. -/
def World.Kept (w : World) (i : Nat) (ref : Ref) : Prop := w.records ref = some (.whole { ref, pgid := i + 1 })

def Scan.ref? : Scan → Option Ref
  | .head => none
  | .checking st | .locking st | .saving st | .writing st => some st.ref

/-- What a watcher has found out. -/
def Watch.Right (i : Nat) (wrapper : Wrapper) : Watch → Prop
  | .polling pgid => pgid = i + 1
  | .reading _ => ∃ code, wrapper = .gone code
  | .storing _ code => Fair wrapper code
  | .saving _ _ | .writing _ _ => True

/-- Nothing in the registry concerns the ref. -/
def World.Absent (w : World) (ref : Ref) : Prop := w.tasks ref = none ∧ w.watchers ref = none

/-- The registry has the entry of the group. -/
def World.Settled (w : World) (i : Nat) (g : Group) : Prop :=
  ∃ t, w.tasks g.ref = some t ∧ (t.finished = true → Fair g.wrapper t.exitCode) ∧
    ∀ watch, w.watchers g.ref = some watch → watch.Right i g.wrapper

/-- How an attempt stands while `RecoverState` is at a place of its loop. -/
inductive Waits (w : World) (i : Nat) (g : Group) (todo : List Ref) : Scan → Prop where
  | listed {scan : Scan} : w.Absent g.ref → g.ref ∈ todo → scan.ref? ≠ some g.ref → w.Kept i g.ref → Waits w i g todo scan
  | checking : w.Absent g.ref → Waits w i g todo (.checking { ref := g.ref, pgid := i + 1 })
  | locking {st : AttemptState} : w.Absent g.ref → st.ref = g.ref → st.pgid = i + 1 → (st.finished = true → Fair g.wrapper st.exitCode) →
      Waits w i g todo (.locking st)
  | settled {scan : Scan} : w.Settled i g → Waits w i g todo scan

inductive Standing (w : World) (i : Nat) (g : Group) : Prop where
  | launching : w.mode = .up → (w.launches g.ref = some (.started (i + 1)) ∨ w.launches g.ref = some (.opened (i + 1))) → Standing w i g
  | kept : w.mode = .up → w.launches g.ref = none → w.Kept i g.ref → Standing w i g
  | recovering {todo : List Ref} {scan : Scan} : w.mode = .recovering todo scan → Waits w i g todo scan → Standing w i g
  | serving : w.mode = .serving → w.Settled i g → Standing w i g

structure Sound (w : World) : Prop where
  nodup : (w.groups.map (·.ref)).Nodup
  fresh : ∀ ref, (∀ g ∈ w.groups, g.ref ≠ ref) → w.sidecars ref = none
  side : ∀ g ∈ w.groups, readExitFile (w.sidecars g.ref) = g.wrapper.code?.map fun code => (code.val : Int)
  names : ∀ ref st, w.records ref = some (.whole st) → st.ref = ref
  first : w.mode = .up → ∀ ref, w.Absent ref
  /-- A crash ends every launch. -/
  ended : w.mode ≠ .up → ∀ ref, w.launches ref = none
  standing : ∀ (i : Nat) (g : Group), w.groups[i]? = some g → Standing w i g

section Lemmas

variable {w u : World} {i : Nat} {g : Group}

theorem alive_iff (at_ : w.groups[i]? = some g) : w.processGroupAlive (i + 1) = true ↔ ∀ code, g.wrapper ≠ .gone code := by
  simp only [World.processGroupAlive, Nat.add_sub_cancel, at_, Option.any_some]
  cases g.wrapper <;> simp

theorem World.Absent.frame (absent : w.Absent g.ref) (tasks : u.tasks g.ref = w.tasks g.ref) (watchers : u.watchers g.ref = w.watchers g.ref) :
    u.Absent g.ref := ⟨tasks.trans absent.1, watchers.trans absent.2⟩

theorem World.Settled.frame (settled : w.Settled i g) (tasks : u.tasks g.ref = w.tasks g.ref) (watchers : u.watchers g.ref = w.watchers g.ref) :
    u.Settled i g := by
  obtain ⟨t, known, fair, right⟩ := settled
  exact ⟨t, tasks.trans known, fair, watchers ▸ right⟩

theorem Waits.frame {todo : List Ref} {scan : Scan} (waits : Waits w i g todo scan) (tasks : u.tasks g.ref = w.tasks g.ref)
    (watchers : u.watchers g.ref = w.watchers g.ref) (records : u.records g.ref = w.records g.ref) : Waits u i g todo scan := by
  cases waits with
  | listed no listed other kept => exact .listed (no.frame tasks watchers) listed other (records.trans kept)
  | checking no => exact .checking (no.frame tasks watchers)
  | locking no same pgid fair => exact .locking (no.frame tasks watchers) same pgid fair
  | settled settled => exact .settled (settled.frame tasks watchers)

/-- A step that does not concern the ref leaves its attempt as it stands. -/
theorem Standing.frame (standing : Standing w i g) (mode : u.mode = w.mode) (tasks : u.tasks g.ref = w.tasks g.ref)
    (watchers : u.watchers g.ref = w.watchers g.ref) (records : u.records g.ref = w.records g.ref)
    (launches : u.launches g.ref = w.launches g.ref) : Standing u i g := by
  cases standing with
  | launching up saving => exact .launching (mode.trans up) (launches ▸ saving)
  | kept up none kept => exact .kept (mode.trans up) (launches.trans none) (records.trans kept)
  | recovering at_ waits => exact .recovering (mode.trans at_) (waits.frame tasks watchers records)
  | serving at_ settled => exact .serving (mode.trans at_) (settled.frame tasks watchers)

/-! ### Steps of the shell -/

/-- A code stays recorded, and a group that is gone stays gone. -/
def Grows (old new : Wrapper) : Prop := (∀ code, old.code? = some code → new.code? = some code) ∧ ∀ code, old = .gone code → new = old

theorem Fair.grows {old new : Wrapper} {answer : Int} (fair : Fair old answer) (grows : Grows old new) : Fair new answer := by
  rcases fair with ⟨code, recorded, same⟩ | gone
  · exact .inl ⟨code, grows.1 code recorded, same⟩
  · exact .inr ((grows.2 none gone).trans gone)

theorem Watch.Right.grows {old new : Wrapper} {watch : Watch} (right : watch.Right i old) (grows : Grows old new) : watch.Right i new := by
  cases watch with
  | polling pgid => exact right
  | reading pgid =>
    obtain ⟨code, gone⟩ := right
    exact ⟨code, (grows.2 code gone).trans gone⟩
  | storing pgid code => exact Fair.grows right grows
  | saving pgid code => trivial
  | writing pgid code => trivial

theorem World.Settled.grows (settled : w.Settled i g) {wrapper : Wrapper} (grows : Grows g.wrapper wrapper) : w.Settled i { g with wrapper } := by
  obtain ⟨t, known, fair, right⟩ := settled
  exact ⟨t, known, fun finished => (fair finished).grows grows, fun watch watched => (right watch watched).grows grows⟩

theorem Standing.grows (standing : Standing w i g) {wrapper : Wrapper} (grows : Grows g.wrapper wrapper) : Standing w i { g with wrapper } := by
  cases standing with
  | launching up saving => exact .launching up saving
  | kept up none kept => exact .kept up none kept
  | recovering at_ waits =>
    refine .recovering at_ ?_
    cases waits with
    | listed no listed other kept => exact .listed no listed other kept
    | checking no => exact .checking no
    | locking no same pgid fair => exact .locking no same pgid fun finished => (fair finished).grows grows
    | settled settled => exact .settled (settled.grows grows)
  | serving at_ settled => exact .serving at_ (settled.grows grows)

/-- The shell of a group goes on; its exit file reads as what is recorded. -/
theorem Sound.become (sound : Sound w) (at_ : w.groups[i]? = some g) {wrapper : Wrapper} (grows : Grows g.wrapper wrapper)
    {sidecars : Ref → Option String} (others : ∀ ref, ref ≠ g.ref → sidecars ref = w.sidecars ref)
    (own : readExitFile (sidecars g.ref) = wrapper.code?.map fun code => (code.val : Int)) :
    Sound { w.become i g wrapper with sidecars } := by
  have within := (List.getElem?_eq_some_iff.mp at_).1
  have refs : (w.groups.set i { g with wrapper }).map (·.ref) = w.groups.map (·.ref) := by
    apply List.ext_getElem?
    intro j
    rw [List.getElem?_map, List.getElem?_map, List.getElem?_set, if_pos within]
    split
    · subst j
      rw [at_]
      rfl
    · rfl
  have apart (j : Nat) (h : Group) (listed : w.groups[j]? = some h) (other : i ≠ j) : h.ref ≠ g.ref := by
    intro same
    have both : (w.groups.map (·.ref))[i]? = (w.groups.map (·.ref))[j]? := by
      rw [List.getElem?_map, List.getElem?_map, at_, listed, Option.map_some, Option.map_some, same]
    exact other ((List.getElem?_inj (by simpa using within) sound.nodup).mp both)
  have each {j : Nat} {h : Group} (listed : (w.groups.set i { g with wrapper })[j]? = some h) :
      (i = j ∧ h = { g with wrapper }) ∨ (i ≠ j ∧ w.groups[j]? = some h) := by
    rw [List.getElem?_set, if_pos within] at listed
    split at listed
    · exact .inl ⟨‹_›, (Option.some.inj listed).symm⟩
    · exact .inr ⟨‹_›, listed⟩
  refine ⟨refs ▸ sound.nodup, fun ref unstarted => ?_, fun h listed => ?_, sound.names, sound.first, sound.ended, fun j h listed => ?_⟩
  · have before : ∀ h ∈ w.groups, h.ref ≠ ref := by
      intro h member same
      have inside : ref ∈ (w.groups.set i { g with wrapper }).map (·.ref) := refs ▸ List.mem_map.mpr ⟨h, member, same⟩
      obtain ⟨k, still, also⟩ := List.mem_map.mp inside
      exact unstarted k still also
    refine (others ref ?_).trans (sound.fresh ref before)
    rintro rfl
    exact before g (List.mem_of_getElem? at_) rfl
  · obtain ⟨j, at_j⟩ := List.mem_iff_getElem?.mp listed
    rcases each at_j with ⟨_, rfl⟩ | ⟨other, old⟩
    · exact own
    · exact (congrArg readExitFile (others _ (apart j h old other))).trans (sound.side h (List.mem_of_getElem? old))
  · rcases each listed with ⟨rfl, rfl⟩ | ⟨_, old⟩
    · exact ((sound.standing i g at_).grows grows).frame rfl rfl rfl rfl rfl
    · exact (sound.standing j h old).frame rfl rfl rfl rfl rfl

theorem Sound.shell (sound : Sound w) {act : Act} (stepped : w.shell i act = some u) : Sound u := by
  unfold World.shell at stepped
  split at stepped
  · cases stepped
  · rename_i g at_
    have other {text : String} (ref : Ref) (apart : ref ≠ g.ref) : Function.update w.sidecars g.ref (some text) ref = w.sidecars ref :=
      Function.update_of_ne apart ..
    have side := sound.side g (List.mem_of_getElem? at_)
    split at stepped
    · rename_i code running
      cases stepped
      refine sound.become at_ ⟨by simp [running, Wrapper.code?], by simp [running]⟩ other ?_
      rw [Function.update_self, readExitFile_empty]
      rfl
    · rename_i code opened
      cases stepped
      refine sound.become at_ ⟨by simp [opened, Wrapper.code?], by simp [opened]⟩ other ?_
      rw [Function.update_self, readExitFile_code]
      rfl
    · rename_i code recorded
      cases stepped
      refine sound.become at_ ⟨by simp [recorded, Wrapper.code?], by simp [recorded]⟩ (fun _ _ => rfl) ?_
      rw [side, recorded]
      rfl
    · cases stepped
      have grows : Grows g.wrapper (.gone g.wrapper.code?) := by
        refine ⟨fun _ recorded => recorded, fun code gone => ?_⟩
        rw [gone]
        rfl
      exact sound.become at_ grows (fun _ _ => rfl) side
    · cases stepped

/-! ### Steps of the executor -/

theorem Sound.retain (sound : Sound w) (groups : u.groups = w.groups) (sidecars : u.sidecars = w.sidecars)
    (names : ∀ ref st, u.records ref = some (.whole st) → st.ref = ref) (first : u.mode = .up → ∀ ref, u.Absent ref)
    (ended : u.mode ≠ .up → ∀ ref, u.launches ref = none)
    (standing : ∀ (i : Nat) (g : Group), w.groups[i]? = some g → Standing u i g) : Sound u where
  nodup := groups ▸ sound.nodup
  fresh ref unstarted := sidecars ▸ sound.fresh ref (groups ▸ unstarted)
  side g listed := sidecars ▸ sound.side g (groups ▸ listed)
  names := names
  first := first
  ended := ended
  standing i g at_ := standing i g (groups ▸ at_)

/-- In its first life the executor's launches know their groups. -/
theorem Standing.of_up (standing : Standing w i g) (up : w.mode = .up) :
    w.launches g.ref = some (.started (i + 1)) ∨ w.launches g.ref = some (.opened (i + 1)) ∨ (w.launches g.ref = none ∧ w.Kept i g.ref) := by
  cases standing with
  | launching _ saving => exact saving.elim .inl fun opened => .inr (.inl opened)
  | kept _ none kept => exact .inr (.inr ⟨none, kept⟩)
  | recovering at_ | serving at_ => cases up.symm.trans at_

theorem Sound.start (sound : Sound w) {ref : Ref} (stepped : w.start ref = some u) : Sound u := by
  unfold World.start at stepped
  split at stepped
  · rename_i allowed
    obtain ⟨up, unstarted⟩ := allowed
    cases stepped
    refine ⟨?_, fun other others => ?_, fun g listed => ?_, sound.names, sound.first, fun notUp => absurd up notUp, fun i g at_ => ?_⟩
    · simp only [List.map_append, List.map_cons, List.map_nil]
      refine List.nodup_append.mpr ⟨sound.nodup, List.nodup_singleton _, fun a old b new => ?_⟩
      obtain ⟨g, listed, rfl⟩ := List.mem_map.mp old
      exact (List.mem_singleton.mp new) ▸ unstarted g listed
    · exact sound.fresh other fun g listed => others g (List.mem_append_left _ listed)
    · rcases List.mem_append.mp listed with old | new
      · exact sound.side g old
      · obtain rfl := List.mem_singleton.mp new
        change readExitFile (w.sidecars ref) = none
        rw [sound.fresh ref unstarted]
        rfl
    · rw [List.getElem?_append] at at_
      split at at_
      · have apart : g.ref ≠ ref := unstarted g (List.mem_of_getElem? at_)
        exact (sound.standing i g at_).frame rfl rfl rfl rfl (Function.update_of_ne apart ..)
      · rw [List.getElem?_singleton] at at_
        split at at_
        · cases at_
          have last : i = w.groups.length := by omega
          subst last
          exact .launching up (.inl (Function.update_self ..))
        · cases at_
  · cases stepped

/-- A record names its attempt. -/
theorem Sound.names_update (sound : Sound w) {ref : Ref} {record : Option Record} (named : ∀ st, record = some (.whole st) → st.ref = ref) :
    ∀ other st, Function.update w.records ref record other = some (.whole st) → st.ref = other := by
  intro other st found
  rw [Function.update_apply] at found
  split at found
  · exact (named st found).trans ‹other = ref›.symm
  · exact sound.names other st found

theorem Sound.save (sound : Sound w) {ref : Ref} (stepped : w.save ref = some u) : Sound u := by
  have up {saving : Saving} (launch : w.launches ref = some saving) : w.mode = .up := by
    by_contra notUp
    cases (sound.ended notUp ref).symm.trans launch
  unfold World.save at stepped
  split at stepped
  · rename_i pgid launch
    cases stepped
    refine sound.retain rfl rfl (sound.names_update (by simp)) sound.first (fun notUp => absurd (up launch) notUp) fun i g at_ => ?_
    have standing := sound.standing i g at_
    by_cases own : g.ref = ref
    · subst own
      rcases standing.of_up (up launch) with started | opened | ⟨none, _⟩
      · cases launch.symm.trans started
        exact .launching (up launch) (.inr (Function.update_self ..))
      · cases launch.symm.trans opened
      · cases launch.symm.trans none
    · exact standing.frame rfl rfl rfl (Function.update_of_ne own ..) (Function.update_of_ne own ..)
  · rename_i pgid launch
    cases stepped
    refine sound.retain rfl rfl (sound.names_update (by rintro st ⟨⟩; rfl)) sound.first (fun notUp => absurd (up launch) notUp) fun i g at_ => ?_
    have standing := sound.standing i g at_
    by_cases own : g.ref = ref
    · subst own
      rcases standing.of_up (up launch) with started | opened | ⟨none, _⟩
      · cases launch.symm.trans started
      · cases launch.symm.trans opened
        exact .kept (up launch) (Function.update_self ..) (Function.update_self ..)
      · cases launch.symm.trans none
    · exact standing.frame rfl rfl rfl (Function.update_of_ne own ..) (Function.update_of_ne own ..)
  · cases stepped

theorem Sound.crash (sound : Sound w) {entries : List Ref} (calm : Calm w (.crash entries)) (stepped : w.crash entries = some u) : Sound u := by
  unfold World.crash at stepped
  split at stepped
  · rename_i allowed
    obtain ⟨up, listed⟩ := allowed
    cases stepped
    refine sound.retain rfl rfl sound.names (fun up => by cases up) (fun _ _ => rfl) fun i g at_ => ?_
    have member := List.mem_of_getElem? at_
    have saved : w.launches g.ref = none := of_decide_eq_true (List.all_eq_true.mp calm g member)
    rcases (sound.standing i g at_).of_up up with started | opened | ⟨_, kept⟩
    · cases started.symm.trans saved
    · cases opened.symm.trans saved
    · refine .recovering rfl (.listed (sound.first up g.ref) ?_ (by simp [Scan.ref?]) kept)
      refine listed.mem_iff.mpr (List.mem_filter.mpr ⟨List.mem_map_of_mem member, ?_⟩)
      rw [kept]
      rfl
  · cases stepped

theorem Sound.advance (sound : Sound w) {todo : List Ref} {scan : Scan} (mode : w.mode = .recovering todo scan) (groups : u.groups = w.groups)
    (sidecars : u.sidecars = w.sidecars) (launches : u.launches = w.launches) (notUp : u.mode ≠ .up)
    (names : ∀ ref st, u.records ref = some (.whole st) → st.ref = ref)
    (standing : ∀ (i : Nat) (g : Group), w.groups[i]? = some g → Waits w i g todo scan → Standing u i g) : Sound u := by
  refine sound.retain groups sidecars names (fun up => absurd up notUp) (fun _ ref => ?_) fun i g at_ => standing i g at_ ?_
  · rw [launches]
    refine sound.ended ?_ ref
    rw [mode]
    exact Mode.noConfusion
  · cases sound.standing i g at_ with
    | launching up | kept up => cases mode.symm.trans up
    | serving serving => cases mode.symm.trans serving
    | recovering other waits =>
      cases mode.symm.trans other
      exact waits

/-- The next entry of the directory is read. -/
theorem Sound.recover_head (sound : Sound w) {ref : Ref} {todo : List Ref} (mode : w.mode = .recovering (ref :: todo) .head) {now : Int}
    (stepped : w.recover now = some u) : Sound u := by
  simp only [World.recover, mode] at stepped
  split at stepped
  · rename_i st record
    cases stepped
    refine sound.advance mode rfl rfl rfl Mode.noConfusion sound.names fun i g at_ waits => .recovering rfl ?_
    cases waits with
    | settled settled => exact .settled (settled.frame rfl rfl)
    | listed no listed _ kept =>
      by_cases own : g.ref = ref
      · subst own
        cases record.symm.trans kept
        exact .checking (no.frame rfl rfl)
      · refine .listed (no.frame rfl rfl) ((List.mem_cons.mp listed).resolve_left own) ?_ kept
        have names := sound.names ref st record
        split <;> simpa [Scan.ref?, names] using Ne.symm own
  · rename_i record
    cases stepped
    refine sound.advance mode rfl rfl rfl Mode.noConfusion (sound.names_update (by simp)) fun i g at_ waits => .recovering rfl ?_
    cases waits with
    | settled settled => exact .settled (settled.frame rfl rfl)
    | listed no listed other kept =>
      have apart : g.ref ≠ ref := by
        rintro rfl
        cases record.symm.trans kept
      exact .listed (no.frame rfl rfl) ((List.mem_cons.mp listed).resolve_left apart) other ((Function.update_of_ne apart ..).trans kept)
  · rename_i record
    cases stepped
    refine sound.advance mode rfl rfl rfl Mode.noConfusion sound.names fun i g at_ waits => .recovering rfl ?_
    cases waits with
    | settled settled => exact .settled (settled.frame rfl rfl)
    | listed no listed other kept =>
      have apart : g.ref ≠ ref := by
        rintro rfl
        cases record.symm.trans kept
      exact .listed (no.frame rfl rfl) ((List.mem_cons.mp listed).resolve_left apart) other kept

/-- The exit file of an unfinished attempt is read. -/
theorem Sound.recover_checking (sound : Sound w) {todo : List Ref} {st : AttemptState} (mode : w.mode = .recovering todo (.checking st))
    {now : Int} (stepped : w.recover now = some u) : Sound u := by
  simp only [World.recover, mode] at stepped
  split at stepped
  · rename_i code read
    cases stepped
    refine sound.advance mode rfl rfl rfl Mode.noConfusion sound.names fun i g at_ waits => .recovering rfl ?_
    cases waits with
    | settled settled => exact .settled (settled.frame rfl rfl)
    | listed no listed other kept => exact .listed (no.frame rfl rfl) listed other kept
    | checking no =>
      refine .locking (no.frame rfl rfl) rfl rfl fun _ => ?_
      have side := (sound.side g (List.mem_of_getElem? at_)).symm.trans read
      obtain ⟨recorded, known, rfl⟩ := Option.map_eq_some_iff.mp side
      exact .inl ⟨recorded, known, rfl⟩
  · cases stepped
    refine sound.advance mode rfl rfl rfl Mode.noConfusion sound.names fun i g at_ waits => .recovering rfl ?_
    cases waits with
    | settled settled => exact .settled (settled.frame rfl rfl)
    | listed no listed other kept => exact .listed (no.frame rfl rfl) listed other kept
    | checking no => exact .locking (no.frame rfl rfl) rfl rfl fun finished => by cases finished

/-- An entry is made for the attempt. -/
theorem Sound.recover_locking (sound : Sound w) {todo : List Ref} {st : AttemptState} (mode : w.mode = .recovering todo (.locking st))
    {now : Int} (calm : Calm w (.recover now)) (stepped : w.recover now = some u) : Sound u := by
  simp only [World.recover, mode] at stepped
  split at stepped
  · rename_i known
    cases stepped
    refine sound.advance mode rfl rfl rfl Mode.noConfusion sound.names fun i g at_ waits => .recovering rfl ?_
    cases waits with
    | settled settled => exact .settled (settled.frame rfl rfl)
    | listed no listed _ kept => exact .listed (no.frame rfl rfl) listed (by simp [Scan.ref?]) kept
    | locking no same => exact absurd (same ▸ no.1) known
  · rename_i unknown
    have unknown := not_not.mp unknown
    -- the entry of another ref leaves the attempt as it stands
    have others (entry : ProcTask) (watch : Option Watch) {v : World} (mode' : v.mode = .recovering todo (.saving st))
        (tasks : v.tasks = Function.update w.tasks st.ref (some entry)) (watchers : v.watchers = Function.update w.watchers st.ref watch)
        (records : v.records = w.records) {i : Nat} {g : Group} (at_ : w.groups[i]? = some g) (waits : Waits w i g todo (.locking st))
        (own : w.Absent g.ref → st.ref = g.ref → st.pgid = i + 1 → (st.finished = true → Fair g.wrapper st.exitCode) →
          (entry.finished = true → Fair g.wrapper entry.exitCode) ∧ ∀ known, watch = some known → known.Right i g.wrapper) : Standing v i g := by
      have apart (other : g.ref ≠ st.ref) : v.tasks g.ref = w.tasks g.ref ∧ v.watchers g.ref = w.watchers g.ref := by
        rw [tasks, watchers, Function.update_of_ne other, Function.update_of_ne other]
        exact ⟨rfl, rfl⟩
      refine .recovering mode' ?_
      cases waits with
      | settled settled =>
        have other : g.ref ≠ st.ref := by
          intro same
          obtain ⟨t, known, _⟩ := settled
          rw [same, unknown] at known
          cases known
        exact .settled (settled.frame (apart other).1 (apart other).2)
      | listed no listed other kept =>
        have differs : g.ref ≠ st.ref := fun same => other (congrArg some same.symm)
        exact .listed (no.frame (apart differs).1 (apart differs).2) listed other (by rw [World.Kept, records]; exact kept)
      | locking no same pgid fair =>
        obtain ⟨answer, right⟩ := own no same pgid fair
        refine .settled ⟨entry, ?_, answer, ?_⟩
        · rw [tasks, same, Function.update_self]
        · rw [watchers, same, Function.update_self]
          exact right
    split at stepped
    · rename_i finished
      cases stepped
      refine sound.advance mode rfl rfl rfl Mode.noConfusion sound.names fun i g at_ waits => ?_
      refine others { owner := 0, pgid := st.pgid, finished := true, exitCode := st.exitCode, finishedAt := now } (w.watchers st.ref) ?_ ?_ ?_ ?_ at_
        waits fun no same _ fair => ?_
      · rfl
      · rfl
      · exact (Function.update_eq_self st.ref w.watchers).symm
      · rfl
      · refine ⟨fun _ => fair finished, ?_⟩
        rw [same, no.2]
        exact fun known none => by cases none
    · rename_i unfinished
      split at stepped
      · cases stepped
        refine sound.advance mode rfl rfl rfl Mode.noConfusion sound.names fun i g at_ waits => ?_
        refine others { owner := 0, pgid := st.pgid } (some (.polling st.pgid)) ?_ ?_ ?_ ?_ at_ waits fun no same pgid fair => ?_
        · rfl
        · rfl
        · rfl
        · rfl
        · refine ⟨(fun finished => by cases finished), ?_⟩
          rintro known ⟨⟩
          exact pgid
      · rename_i dead
        cases stepped
        refine sound.advance mode rfl rfl rfl Mode.noConfusion sound.names fun i g at_ waits => ?_
        refine others { owner := 0, pgid := st.pgid, finished := true, exitCode := -1, finishedAt := now } (w.watchers st.ref) ?_ ?_ ?_ ?_ at_
          waits fun no same pgid fair => ?_
        · rfl
        · rfl
        · exact (Function.update_eq_self st.ref w.watchers).symm
        · rfl
        · refine ⟨fun _ => .inr ?_, ?_⟩
          · have dead := Bool.eq_false_iff.mpr dead
            have unread : readExitFile (w.sidecars st.ref) = none := by simpa [Calm, World.calm, mode, unfinished, dead] using calm
            rw [same, sound.side g (List.mem_of_getElem? at_), Option.map_eq_none_iff] at unread
            rw [pgid] at dead
            obtain ⟨code, gone⟩ : ∃ code, g.wrapper = .gone code := by
              by_contra alive
              rw [(alive_iff at_).mpr fun code same => alive ⟨code, same⟩] at dead
              cases dead
            rw [gone] at unread ⊢
            exact congrArg _ unread
          · rw [same, no.2]
            exact fun known none => by cases none

/-- The record is saved. -/
theorem Sound.recover_saving (sound : Sound w) {todo : List Ref} {scan next : Scan} {ref : Ref} {record : Record}
    (mode : w.mode = .recovering todo scan) (about : scan.ref? = some ref) (late : ∀ st, scan ≠ .checking st ∧ scan ≠ .locking st)
    (names : ∀ st, record = .whole st → st.ref = ref) (onward : next.ref? = some ref ∨ next = .head) :
    Sound { w.setRecord ref (some record) with mode := .recovering todo next } := by
  refine sound.advance mode rfl rfl rfl Mode.noConfusion (sound.names_update (by simpa using names)) fun i g at_ waits => .recovering rfl ?_
  cases waits with
  | settled settled => exact .settled (settled.frame rfl rfl)
  | checking => exact absurd rfl (late _).1
  | locking => exact absurd rfl (late _).2
  | listed no listed other kept =>
    have apart : g.ref ≠ ref := by
      rintro rfl
      exact other about
    refine .listed (no.frame rfl rfl) listed ?_ ((Function.update_of_ne apart ..).trans kept)
    rcases onward with same | rfl
    · rw [same]
      simpa using Ne.symm apart
    · simp [Scan.ref?]

theorem Sound.recover (sound : Sound w) {now : Int} (calm : Calm w (.recover now)) (stepped : w.recover now = some u) : Sound u := by
  cases mode : w.mode with
  | up | serving => simp [World.recover, mode] at stepped
  | recovering todo scan =>
    cases scan with
    | head =>
      cases todo with
      | nil =>
        simp only [World.recover, mode] at stepped
        cases stepped
        refine sound.advance mode rfl rfl rfl Mode.noConfusion sound.names fun i g at_ waits => .serving rfl ?_
        cases waits with
        | settled settled => exact settled.frame rfl rfl
        | listed _ listed => cases listed
      | cons ref todo => exact sound.recover_head mode stepped
    | checking st => exact sound.recover_checking mode stepped
    | locking st => exact sound.recover_locking mode calm stepped
    | saving st =>
      simp only [World.recover, mode] at stepped
      cases stepped
      split
      · exact sound.recover_saving mode rfl (by simp) (by simp) (.inl rfl)
      · exact sound.recover_saving mode rfl (by simp) (by simp) (.inl rfl)
    | writing st =>
      simp only [World.recover, mode] at stepped
      cases stepped
      exact sound.recover_saving mode rfl (by simp) (by rintro _ ⟨⟩; rfl) (.inr rfl)

/-- A watcher acts on its own attempt, which has its entry. -/
theorem Sound.watched (sound : Sound w) {ref : Ref} {now : Watch} (watching : w.watchers ref = some now) (groups : u.groups = w.groups)
    (sidecars : u.sidecars = w.sidecars) (launches : u.launches = w.launches) (mode : u.mode = w.mode)
    (names : ∀ other st, u.records other = some (.whole st) → st.ref = other)
    (others : ∀ other, other ≠ ref → u.tasks other = w.tasks other ∧ u.watchers other = w.watchers other ∧ u.records other = w.records other)
    (own : ∀ (i : Nat) (g : Group), w.groups[i]? = some g → g.ref = ref → w.Settled i g → u.Settled i g) : Sound u := by
  have notUp : w.mode ≠ .up := by
    intro up
    cases (sound.first up ref).2.symm.trans watching
  refine sound.retain groups sidecars names (fun up => absurd (mode.symm.trans up) notUp) (fun _ => launches ▸ sound.ended notUp) fun i g at_ => ?_
  have standing := sound.standing i g at_
  by_cases same : g.ref = ref
  · have present (no : w.Absent g.ref) : False := by
      cases (same ▸ no.2).symm.trans watching
    cases standing with
    | launching up | kept up => exact absurd up notUp
    | serving serving settled => exact .serving (mode.trans serving) (own i g at_ same settled)
    | recovering recovering waits =>
      refine .recovering (mode.trans recovering) ?_
      cases waits with
      | settled settled => exact .settled (own i g at_ same settled)
      | listed no | checking no | locking no => exact (present no).elim
  · obtain ⟨tasks, watchers, records⟩ := others g.ref same
    exact standing.frame mode tasks watchers records (congrFun launches _)

/-- A watcher goes on and leaves the entry as it is. -/
theorem Sound.noted (sound : Sound w) {ref : Ref} {known : Watch} (watching : w.watchers ref = some known) (next : Option Watch)
    (record : Option Record) (named : ∀ st, record = some (.whole st) → st.ref = ref)
    (right : ∀ (i : Nat) (g : Group), w.groups[i]? = some g → g.ref = ref → known.Right i g.wrapper →
      ∀ watch, next = some watch → watch.Right i g.wrapper) : Sound ((w.setWatch ref next).setRecord ref record) := by
  refine sound.watched watching rfl rfl rfl rfl (sound.names_update named) (fun other apart => ?_) fun i g at_ same settled => ?_
  · exact ⟨rfl, Function.update_of_ne apart .., Function.update_of_ne apart ..⟩
  · obtain ⟨t, entry, fair, watched⟩ := settled
    refine ⟨t, entry, fair, fun watch found => ?_⟩
    have found : Function.update w.watchers ref next g.ref = some watch := found
    rw [same, Function.update_self] at found
    exact right i g at_ same (watched known (same ▸ watching)) watch found

theorem World.setRecord_self (ref : Ref) : w.setRecord ref (w.records ref) = w := by
  rw [setRecord, Function.update_eq_self]

theorem Sound.watch (sound : Sound w) {ref : Ref} {now : Int} (stepped : w.watch ref now = some u) : Sound u := by
  have keeps (st : AttemptState) (record : w.records ref = some (.whole st)) : st.ref = ref := sound.names ref st record
  unfold World.watch at stepped
  split at stepped
  · cases stepped
  · rename_i pgid watching
    split at stepped
    · cases stepped
      exact sound
    · rename_i dead
      cases stepped
      rw [← World.setRecord_self (w := w.setWatch ref _) ref]
      refine sound.noted watching _ _ keeps fun i g at_ _ right => ?_
      rintro watch ⟨⟩
      obtain rfl : pgid = i + 1 := right
      by_contra alive
      exact dead ((alive_iff at_).mpr fun code same => alive ⟨code, same⟩)
  · rename_i pgid watching
    cases stepped
    rw [← World.setRecord_self (w := w.setWatch ref _) ref]
    refine sound.noted watching _ _ keeps fun i g at_ same right => ?_
    rintro watch ⟨⟩
    obtain ⟨code, gone⟩ := right
    have side := sound.side g (List.mem_of_getElem? at_)
    rw [same, gone] at side
    cases code with
    | none => exact .inr gone
    | some code => exact .inl ⟨code, by rw [gone]; rfl, by rw [side]; rfl⟩
  · rename_i pgid code watching
    split at stepped
    · rename_i t entry
      split at stepped
      · cases stepped
        rw [← World.setRecord_self (w := w.setWatch ref _) ref]
        refine sound.noted watching _ _ keeps fun i g at_ _ right => ?_
        rintro watch ⟨⟩
        trivial
      · cases stepped
        refine sound.watched watching rfl rfl rfl rfl sound.names (fun other apart => ?_) fun i g at_ same settled => ?_
        · exact ⟨Function.update_of_ne apart .., Function.update_of_ne apart .., rfl⟩
        · obtain ⟨_, _, _, right⟩ := settled
          have stored : Fair g.wrapper code := right (.storing pgid code) (same ▸ watching)
          refine ⟨{ t with finished := true, exitCode := code, finishedAt := now }, ?_, fun _ => stored, fun watch found => ?_⟩
          · exact (congrArg _ same).trans (Function.update_self ..)
          · have found := (congrArg _ same.symm).trans found
            have found := (Function.update_self ..).symm.trans found
            cases found
            trivial
    · cases stepped
      rw [← World.setRecord_self (w := w.setWatch ref _) ref]
      refine sound.noted watching _ _ keeps fun i g at_ _ right => ?_
      rintro watch ⟨⟩
      trivial
  · rename_i pgid code watching
    cases stepped
    refine sound.noted watching _ _ (by simp) fun i g at_ _ right => ?_
    rintro watch ⟨⟩
    trivial
  · rename_i pgid code watching
    cases stepped
    exact sound.noted watching _ _ (by rintro st ⟨⟩; rfl) fun i g at_ _ right watch none => by cases none

theorem Sound.step (sound : Sound w) {label : Label} (calm : Calm w label) (stepped : w.step label = some u) : Sound u := by
  cases label with
  | start ref => exact sound.start stepped
  | save ref => exact sound.save stepped
  | shell i act => exact sound.shell stepped
  | crash entries => exact sound.crash calm stepped
  | recover now => exact sound.recover calm stepped
  | watch ref now => exact sound.watch stepped

theorem Sound.init : Sound .init where
  nodup := List.nodup_nil
  fresh _ _ := rfl
  side := by simp [World.init]
  names := by simp [World.init]
  first _ _ := ⟨rfl, rfl⟩
  ended _ _ := rfl
  standing := by simp [World.init]

theorem World.Settled.answer (settled : w.Settled i g) {answer : Int} (exited : probe w.tasks g.ref = .exited answer) : Fair g.wrapper answer := by
  obtain ⟨t, known, fair, _⟩ := settled
  simp only [probe, known] at exited
  split at exited
  · cases exited
    exact fair ‹_›
  · cases exited

theorem Sound.honest (sound : Sound w) : Honest w where
  known serving ref started unknown := by
    obtain ⟨g, listed, rfl⟩ := started
    obtain ⟨i, at_⟩ := List.mem_iff_getElem?.mp listed
    cases sound.standing i g at_ with
    | launching up | kept up => cases serving.symm.trans up
    | recovering recovering => cases serving.symm.trans recovering
    | serving _ settled =>
      obtain ⟨t, known, _⟩ := settled
      simp only [probe, known] at unknown
      split at unknown <;> cases unknown
  code notUp ref code answer recorded exited := by
    obtain ⟨g, listed, rfl, recorded⟩ := recorded
    obtain ⟨i, at_⟩ := List.mem_iff_getElem?.mp listed
    have fair : Fair g.wrapper answer := by
      cases sound.standing i g at_ with
      | launching up | kept up => exact absurd up notUp
      | serving _ settled => exact settled.answer exited
      | recovering _ waits =>
        cases waits with
        | settled settled => exact settled.answer exited
        | listed no | checking no | locking no => simp [probe, no.1] at exited
    rcases fair with ⟨other, known, rfl⟩ | gone
    · rw [known] at recorded
      cases recorded
      rfl
    · rw [gone] at recorded
      cases recorded

end Lemmas

end Cronova.Executor.Restart
