import Cronova.Executor.Launching

/-! Launches are idempotent.

An unfinished entry belongs to one launch, which is past the reservation and not yet at its end, and
every process that runs belongs to such a launch. A step of a launch concerns its own ref only.
-/

set_option autoImplicit false

namespace Cronova.Executor

open Process

/-- The launch has reserved its ref and not yet given it up. -/
def Phase.holds : Phase → Bool
  | .opening | .staging | .starting | .attaching _ | .watching _ | .reaping _ | .finishing _ _ => true
  | _ => false

/-- The process that a launch has started and not yet seen ended. -/
def Phase.pid? : Phase → Option Nat
  | .attaching pid | .watching pid | .reaping pid => some pid
  | _ => none

/-- The launch has started its process. -/
def Phase.begun : Phase → Bool
  | .attaching _ | .watching _ | .reaping _ | .finishing _ _ => true
  | _ => false

theorem Phase.holds_of_pid {phase : Phase} {pid : Nat} (has : phase.pid? = some pid) : phase.holds = true := by
  cases phase <;> first | rfl | cases has

theorem Phase.begun_of_pid {phase : Phase} {pid : Nat} (has : phase.pid? = some pid) : phase.begun = true := by
  cases phase <;> first | rfl | cases has

theorem Phase.holds_of_begun {phase : Phase} (begun : phase.begun = true) : phase.holds = true := by
  cases phase <;> first | rfl | cases begun

def Launched.ref (l : Launched) : Ref := l.spec.taskRunID

/-- The entry is that of a process that was started. -/
def State.Begun (s : State) (ref : Ref) : Prop :=
  ∃ t, s.tasks ref = some t ∧ (t.finished = true ∨ ∃ l : Launched, s.launches[t.owner]? = some l ∧ l.ref = ref ∧ l.phase.begun = true)

/-- What holds of a ref in every state. -/
structure Sound (s : State) (ref : Ref) : Prop where
  held : ∀ (tid : Nat) (l : Launched), s.launches[tid]? = some l → l.ref = ref → l.phase.holds = true →
    ∃ t, s.tasks ref = some t ∧ t.owner = tid ∧ t.finished = false
  holder : ∀ t : ProcTask, s.tasks ref = some t → t.finished = false →
    ∃ l : Launched, s.launches[t.owner]? = some l ∧ l.ref = ref ∧ l.phase.holds = true
  running : ∀ (pid : Nat) (p : Proc), s.procs[pid]? = some p → p.ref = ref → p.exited = none →
    ∃ (tid : Nat) (l : Launched), s.launches[tid]? = some l ∧ l.ref = ref ∧ l.phase.pid? = some pid
  single : (since ref s.history).countP (·.starts ref) ≤ 1
  begun : (since ref s.history).countP (·.starts ref) ≠ 0 → s.Begun ref
  neverBack : NeverBack ref (since ref s.history)
  ended : ∀ code, .probed ref (.exited code) ∈ since ref s.history → ∃ t, s.tasks ref = some t ∧ t.finished = true
  /-- The empty ref is refused. -/
  named : ref = "" → s.tasks ref = none

/-- An event that is neither a start of the ref nor an answer about it. -/
def Event.Idle (ref : Ref) (event : Event) : Prop := event.starts ref = false ∧ ∀ status, event ≠ .probed ref status

section Lemmas

variable {s u : State} {tid : Nat} {spec : Spec} {a b : Phase} {ref : Ref}

theorem Sound.init : Sound .init ref where
  held := by simp [State.init]
  holder := by simp [State.init]
  running := by simp [State.init]
  single := by simp [State.init, since]
  begun := by simp [State.init, since]
  neverBack := List.Pairwise.nil
  ended := by simp [State.init, since]
  named _ := rfl

theorem since_cons {event : Event} {history : List Event} (keeps : event.evicts ref = false) :
    since ref (event :: history) = event :: since ref history := by
  simp [since, keeps]

theorem since_evicted {event : Event} {history : List Event} (evicts : event.evicts ref = true) : since ref (event :: history) = [] := by
  simp [since, evicts]

theorem State.go_launches (here : s.launches[tid]? = some ⟨spec, a⟩) (i : Nat) :
    (s.go tid spec b).launches[i]? = if tid = i then some ⟨spec, b⟩ else s.launches[i]? := by
  have within := (List.getElem?_eq_some_iff.mp here).1
  rw [go, List.getElem?_set, if_pos within]

/-- What does not concern a ref leaves it sound. -/
theorem Sound.frame (sound : Sound s ref) (tasks : u.tasks ref = s.tasks ref)
    (launches : ∀ (i : Nat) (l : Launched), l.ref = ref → l.phase.holds = true → (u.launches[i]? = some l ↔ s.launches[i]? = some l))
    (procs : ∀ (i : Nat) (p : Proc), p.ref = ref → p.exited = none → u.procs[i]? = some p → s.procs[i]? = some p)
    (history : ∃ events, since ref u.history = events ++ since ref s.history ∧ ∀ event ∈ events, event.Idle ref) : Sound u ref := by
  obtain ⟨events, path, idle⟩ := history
  have starts : (since ref u.history).countP (·.starts ref) = (since ref s.history).countP (·.starts ref) := by
    have none : events.countP (·.starts ref) = 0 := List.countP_eq_zero.mpr fun event listed => by simp [(idle event listed).1]
    rw [path, List.countP_append, none, Nat.zero_add]
  refine ⟨?_, ?_, ?_, starts ▸ sound.single, ?_, ?_, ?_, fun empty => tasks.trans (sound.named empty)⟩
  · intro i l listed same holds
    rw [tasks]
    exact sound.held i l ((launches i l same holds).mp listed) same holds
  · intro t known unfinished
    obtain ⟨l, listed, same, holds⟩ := sound.holder t (tasks ▸ known) unfinished
    exact ⟨l, (launches _ l same holds).mpr listed, same, holds⟩
  · intro pid p known same alive
    obtain ⟨i, l, listed, own, has⟩ := sound.running pid p (procs pid p same alive known) same alive
    exact ⟨i, l, (launches i l own (Phase.holds_of_pid has)).mpr listed, own, has⟩
  · rw [starts]
    intro some_
    obtain ⟨t, known, finished | ⟨l, listed, same, begun⟩⟩ := sound.begun some_
    · exact ⟨t, tasks.trans known, .inl finished⟩
    · exact ⟨t, tasks.trans known, .inr ⟨l, (launches _ l same (Phase.holds_of_begun begun)).mpr listed, same, begun⟩⟩
  · rw [NeverBack, path, List.pairwise_append]
    refine ⟨?_, sound.neverBack, ?_⟩
    · exact List.pairwise_of_forall_mem_list fun later listed _ _ _ seen => absurd seen ((idle later listed).2 _)
    · exact fun later listed _ _ _ seen => absurd seen ((idle later listed).2 _)
  · intro code seen
    rw [path] at seen
    rcases List.mem_append.mp seen with new | old
    · exact absurd rfl ((idle _ new).2 _)
    · obtain ⟨t, known, finished⟩ := sound.ended code old
      exact ⟨t, tasks.trans known, finished⟩

/-- A launch that holds its ref is the one that the entry names. -/
theorem Sound.only (sound : Sound s ref) {l m : Launched} {i j : Nat} (first : s.launches[i]? = some l) (second : s.launches[j]? = some m)
    (own : l.ref = ref) (same : m.ref = ref) (holds : l.phase.holds = true) (also : m.phase.holds = true) : i = j := by
  obtain ⟨t, known, rfl, _⟩ := sound.held i l first own holds
  obtain ⟨u, alike, rfl, _⟩ := sound.held j m second same also
  rw [alike] at known
  cases known
  rfl

theorem Sound.unstarted (sound : Sound s ref) (unbegun : ¬ s.Begun ref) : (since ref s.history).countP (·.starts ref) = 0 :=
  not_not.mp (mt sound.begun unbegun)

theorem Sound.not_begun (sound : Sound s ref) (here : s.launches[tid]? = some ⟨spec, a⟩) (own : spec.taskRunID = ref) (holds : a.holds = true)
    (unbegun : a.begun = false) : ¬ s.Begun ref := by
  obtain ⟨t, known, owner, unfinished⟩ := sound.held tid ⟨spec, a⟩ here own holds
  rintro ⟨u, same, finished | ⟨l, listed, _, begun⟩⟩
  · rw [known] at same
    cases same
    rw [unfinished] at finished
    cases finished
  · rw [known] at same
    cases same
    rw [owner, here] at listed
    cases listed
    rw [unbegun] at begun
    cases begun

/-! ### Steps -/

theorem State.go_other (here : s.launches[tid]? = some ⟨spec, a⟩) (other : spec.taskRunID ≠ ref) (i : Nat) (l : Launched) (own : l.ref = ref) :
    (s.go tid spec b).launches[i]? = some l ↔ s.launches[i]? = some l := by
  rw [State.go_launches here]
  split
  · subst tid
    rw [here]
    constructor <;> (rintro ⟨⟩; exact absurd own other)
  · rfl

/-- A launch goes on without giving up its ref or its process. -/
theorem Sound.go (sound : Sound s ref) (here : s.launches[tid]? = some ⟨spec, a⟩) (holds : b.holds = a.holds) (begun : b.begun = a.begun)
    (pid : ∀ pid, a.pid? = some pid → b.pid? = some pid ∨ s.ended pid ≠ none) : Sound (s.go tid spec b) ref := by
  have moved (i : Nat) := State.go_launches (b := b) here i
  refine ⟨?_, ?_, ?_, sound.single, ?_, sound.neverBack, sound.ended, sound.named⟩
  · intro i l listed same lHolds
    rw [moved] at listed
    split at listed
    · subst i
      cases listed
      exact sound.held tid ⟨spec, a⟩ here same (holds ▸ lHolds)
    · exact sound.held i l listed same lHolds
  · intro t known unfinished
    obtain ⟨l, listed, same, lHolds⟩ := sound.holder t known unfinished
    rw [moved]
    split
    · subst tid
      rw [here] at listed
      cases listed
      exact ⟨_, rfl, same, holds ▸ lHolds⟩
    · exact ⟨l, listed, same, lHolds⟩
  · intro i p known own alive
    obtain ⟨j, l, listed, same, has⟩ := sound.running i p known own alive
    by_cases mine : tid = j
    · subst mine
      rw [here] at listed
      cases listed
      have unended : s.ended i = none := by
        have known : s.procs[i]? = some p := known
        rw [State.ended, known, Option.bind_some, alive]
      have still := (pid i has).resolve_right (not_not_intro unended)
      exact ⟨tid, ⟨spec, b⟩, by rw [moved, if_pos rfl], same, still⟩
    · exact ⟨j, l, by rw [moved, if_neg mine]; exact listed, same, has⟩
  · intro some_
    obtain ⟨t, known, finished | ⟨l, listed, same, has⟩⟩ := sound.begun some_
    · exact ⟨t, known, .inl finished⟩
    · refine ⟨t, known, .inr ?_⟩
      rw [moved]
      split
      · subst tid
        rw [here] at listed
        cases listed
        exact ⟨_, rfl, same, begun ▸ has⟩
      · exact ⟨l, listed, same, has⟩

/-- Nothing depends on an entry but its owner and whether it is finished. -/
theorem Sound.retouch (sound : Sound s ref) {tasks : Registry}
    (same : (tasks ref).map (fun t => (t.owner, t.finished)) = (s.tasks ref).map fun t => (t.owner, t.finished)) :
    Sound { s with tasks } ref := by
  have back {t : ProcTask} (known : tasks ref = some t) : ∃ u, s.tasks ref = some u ∧ u.owner = t.owner ∧ u.finished = t.finished := by
    rw [known, Option.map_some, eq_comm, Option.map_eq_some_iff] at same
    simpa using same
  have forth {t : ProcTask} (known : s.tasks ref = some t) : ∃ u, tasks ref = some u ∧ u.owner = t.owner ∧ u.finished = t.finished := by
    rw [known, Option.map_some, Option.map_eq_some_iff] at same
    simpa using same
  refine ⟨?_, ?_, sound.running, sound.single, ?_, sound.neverBack, ?_, fun empty => ?_⟩
  · intro i l listed own holds
    obtain ⟨t, known, owner, unfinished⟩ := sound.held i l listed own holds
    obtain ⟨u, found, sameOwner, sameEnd⟩ := forth known
    exact ⟨u, found, sameOwner.trans owner, sameEnd.trans unfinished⟩
  · intro t known unfinished
    obtain ⟨u, found, sameOwner, sameEnd⟩ := back known
    obtain ⟨l, listed, rest⟩ := sound.holder u found (sameEnd.trans unfinished)
    exact ⟨l, sameOwner ▸ listed, rest⟩
  · intro some_
    obtain ⟨t, known, begun⟩ := sound.begun some_
    obtain ⟨u, found, sameOwner, sameEnd⟩ := forth known
    refine ⟨u, found, ?_⟩
    rwa [sameOwner, sameEnd]
  · intro code seen
    obtain ⟨t, known, finished⟩ := sound.ended code seen
    obtain ⟨u, found, _, sameEnd⟩ := forth known
    exact ⟨u, found, sameEnd.trans finished⟩
  · rw [sound.named empty] at same
    exact Option.map_eq_none_iff.mp same

theorem Sound.launch (sound : Sound s ref) (spec : Spec) : Sound { s with launches := s.launches ++ [⟨spec, .entering⟩] } ref := by
  refine sound.frame rfl (fun i l _ holds => ?_) (fun _ _ _ _ known => known) ⟨[], rfl, by simp⟩
  rw [List.getElem?_append]
  split
  · rfl
  · rename_i beyond
    rw [List.getElem?_eq_none (Nat.le_of_not_lt beyond), List.getElem?_singleton]
    split
    · constructor
      · rintro ⟨⟩
        cases holds
      · intro absent
        cases absent
    · rfl

/-- A sweep evicts finished entries only, and what follows it begins anew for them. -/
theorem Sound.sweep (sound : Sound s ref) (now : Int) : Sound (s.sweep now) ref := by
  by_cases stays : sweepFinishedLocked s.tasks now ref = s.tasks ref
  · refine sound.frame stays (fun _ _ _ _ => Iff.rfl) (fun _ _ _ _ known => known) ⟨[_], since_cons ?_, ?_⟩
    · simpa [Event.evicts] using stays
    · rintro event listed
      obtain rfl := List.mem_singleton.mp listed
      exact ⟨rfl, fun _ => Event.noConfusion⟩
  · have fresh : since ref (s.sweep now).history = [] := since_evicted (by simpa [Event.evicts] using stays)
    have kept {t : ProcTask} (known : s.tasks ref = some t) : t.finished = true := by
      by_contra unfinished
      exact stays ((sweep_keeps known (Bool.eq_false_iff.mpr unfinished)).trans known.symm)
    refine ⟨?_, ?_, sound.running, ?_, ?_, ?_, ?_, fun empty => ?_⟩
    · intro i l listed own holds
      obtain ⟨t, known, _, unfinished⟩ := sound.held i l listed own holds
      rw [kept known] at unfinished
      cases unfinished
    · intro t known unfinished
      rw [kept (sweep_eq_some.mp known).1] at unfinished
      cases unfinished
    · simp [fresh]
    · simp [fresh]
    · rw [fresh]
      exact List.Pairwise.nil
    · simp [fresh]
    · exact absurd (by simp [sweepFinishedLocked, sound.named empty]) stays

/-- A free ref is reserved. -/
theorem Sound.claim (sound : Sound s ref) (here : s.launches[tid]? = some ⟨spec, .entering⟩) (named : spec.taskRunID ≠ "")
    (free : s.tasks spec.taskRunID = none) :
    Sound { s.go tid spec .opening with tasks := Function.update s.tasks spec.taskRunID (some { owner := tid }) } ref := by
  by_cases own : spec.taskRunID = ref
  · subst own
    have none_ (i : Nat) (l : Launched) (listed : s.launches[i]? = some l) (same : l.ref = spec.taskRunID) : l.phase.holds = false := by
      by_contra holds
      obtain ⟨t, known, _⟩ := sound.held i l listed same (by simpa using holds)
      rw [free] at known
      cases known
    have unstarted : (since spec.taskRunID s.history).countP (·.starts spec.taskRunID) = 0 := by
      refine sound.unstarted fun ⟨t, known, _⟩ => ?_
      rw [free] at known
      cases known
    refine ⟨?_, ?_, ?_, sound.single, fun some_ => absurd unstarted some_, sound.neverBack, ?_, fun empty => absurd empty named⟩
    · intro i l listed same holds
      rw [State.go_launches here] at listed
      split at listed
      · exact ⟨_, Function.update_self .., ‹tid = i›, rfl⟩
      · rw [none_ i l listed same] at holds
        cases holds
    · intro t known unfinished
      have made := (Function.update_self ..).symm.trans known
      cases made
      exact ⟨⟨spec, .opening⟩, by rw [State.go_launches here, if_pos rfl], rfl, rfl⟩
    · intro pid p known same alive
      obtain ⟨i, l, listed, mine, has⟩ := sound.running pid p known same alive
      have holds := Phase.holds_of_pid has
      rw [none_ i l listed mine] at holds
      cases holds
    · intro code seen
      obtain ⟨t, known, _⟩ := sound.ended code seen
      rw [free] at known
      cases known
  · exact sound.frame (Function.update_of_ne (Ne.symm own) ..) (fun i l same _ => State.go_other here own i l same)
      (fun _ _ _ _ known => known) ⟨[], rfl, by simp⟩

/-- Another launch of the ref does not hold it. -/
theorem Sound.others (sound : Sound s ref) (here : s.launches[tid]? = some ⟨spec, a⟩) (own : spec.taskRunID = ref) (holds : a.holds = true)
    {i : Nat} {l : Launched} (listed : s.launches[i]? = some l) (same : l.ref = ref) (apart : tid ≠ i) : l.phase.holds = false := by
  by_contra also
  exact apart (sound.only here listed own same holds (by simpa using also))

/-- The launch gives up a ref whose process it has not started. -/
theorem Sound.fail (sound : Sound s ref) (here : s.launches[tid]? = some ⟨spec, a⟩) (holds : a.holds = true) (unbegun : a.begun = false) :
    Sound (s.fail tid spec) ref := by
  by_cases own : spec.taskRunID = ref
  · subst own
    obtain ⟨t, known, owner, unfinished⟩ := sound.held tid ⟨spec, a⟩ here rfl holds
    have unstarted := sound.unstarted (sound.not_begun here rfl holds unbegun)
    have free : (s.fail tid spec).tasks spec.taskRunID = none := Function.update_self ..
    have path : since spec.taskRunID (s.fail tid spec).history = .failed spec.taskRunID :: since spec.taskRunID s.history := since_cons rfl
    have idle (i : Nat) (l : Launched) (listed : (s.fail tid spec).launches[i]? = some l) (same : l.ref = spec.taskRunID) :
        l.phase.holds = false := by
      have listed := (State.go_launches here i).symm.trans listed
      split at listed
      · cases listed
        rfl
      · exact sound.others here rfl holds listed same ‹_›
    refine ⟨?_, ?_, ?_, ?_, ?_, ?_, ?_, fun _ => free⟩
    · intro i l listed same lHolds
      rw [idle i l listed same] at lHolds
      cases lHolds
    · intro u found
      rw [free] at found
      cases found
    · intro pid p found same alive
      obtain ⟨i, l, listed, mine, has⟩ := sound.running pid p found same alive
      by_cases apart : tid = i
      · subst apart
        rw [here] at listed
        cases listed
        rw [Phase.begun_of_pid has] at unbegun
        cases unbegun
      · have lHolds := Phase.holds_of_pid has
        rw [sound.others here rfl holds listed mine apart] at lHolds
        cases lHolds
    · rw [path, List.countP_cons_of_neg (by simp [Event.starts])]
      exact sound.single
    · rw [path, List.countP_cons_of_neg (by simp [Event.starts])]
      exact fun some_ => absurd unstarted some_
    · rw [path]
      exact List.pairwise_cons.mpr ⟨fun _ _ _ => Event.noConfusion, sound.neverBack⟩
    · intro code seen
      rw [path] at seen
      obtain ⟨u, same, finished⟩ := sound.ended code ((List.mem_cons.mp seen).resolve_left Event.noConfusion)
      rw [known] at same
      cases same
      rw [unfinished] at finished
      cases finished
  · refine sound.frame (Function.update_of_ne (Ne.symm own) ..) (fun i l same _ => State.go_other here own i l same)
      (fun _ _ _ _ known => known) ⟨[_], since_cons rfl, fun event listed => ?_⟩
    obtain rfl := List.mem_singleton.mp listed
    exact ⟨rfl, fun _ => Event.noConfusion⟩

/-- The process of a launch is started. -/
theorem Sound.start (sound : Sound s ref) (here : s.launches[tid]? = some ⟨spec, .starting⟩) : Sound (s.start tid spec) ref := by
  by_cases own : spec.taskRunID = ref
  · subst own
    obtain ⟨t, known, owner, unfinished⟩ := sound.held tid ⟨spec, .starting⟩ here rfl rfl
    have unstarted := sound.unstarted (sound.not_begun here rfl rfl rfl)
    have path : since spec.taskRunID (s.start tid spec).history = .started spec.taskRunID :: since spec.taskRunID s.history := since_cons rfl
    have moved (i : Nat) : (s.start tid spec).launches[i]? = if tid = i then some ⟨spec, .attaching s.procs.length⟩ else s.launches[i]? :=
      State.go_launches here i
    have mine : (s.start tid spec).launches[t.owner]? = some ⟨spec, .attaching s.procs.length⟩ := by
      rw [moved, if_pos owner.symm]
    refine ⟨?_, ?_, ?_, ?_, fun _ => ⟨t, known, .inr ⟨_, mine, rfl, rfl⟩⟩, ?_, ?_, sound.named⟩
    · intro i l listed same lHolds
      rw [moved] at listed
      split at listed
      · exact ⟨t, known, owner.trans ‹_›, unfinished⟩
      · rw [sound.others here rfl rfl listed same ‹_›] at lHolds
        cases lHolds
    · intro u found _
      have found : s.tasks spec.taskRunID = some u := found
      rw [known] at found
      cases found
      exact ⟨_, mine, rfl, rfl⟩
    · intro pid p found same alive
      have found : (s.procs ++ [⟨spec.taskRunID, none⟩])[pid]? = some p := found
      rw [List.getElem?_append] at found
      split at found
      · obtain ⟨i, l, listed, also, has⟩ := sound.running pid p found same alive
        by_cases apart : tid = i
        · subst apart
          rw [here] at listed
          cases listed
          cases has
        · have lHolds := Phase.holds_of_pid has
          rw [sound.others here rfl rfl listed also apart] at lHolds
          cases lHolds
      · rw [List.getElem?_singleton] at found
        split at found
        · refine ⟨tid, ⟨spec, .attaching s.procs.length⟩, by rw [moved, if_pos rfl], rfl, ?_⟩
          exact congrArg some (by omega)
        · cases found
    · rw [path, List.countP_cons_of_pos (by simp [Event.starts])]
      exact Nat.succ_le_succ (Nat.le_of_eq unstarted)
    · rw [path]
      exact List.pairwise_cons.mpr ⟨fun _ _ _ => Event.noConfusion, sound.neverBack⟩
    · intro code seen
      rw [path] at seen
      exact sound.ended code ((List.mem_cons.mp seen).resolve_left Event.noConfusion)
  · refine sound.frame rfl (fun i l same _ => State.go_other here own i l same) (fun i p same _ found => ?_)
      ⟨[_], since_cons rfl, fun event listed => ?_⟩
    · have found : (s.procs ++ [⟨spec.taskRunID, none⟩])[i]? = some p := found
      rw [List.getElem?_append] at found
      split at found
      · exact found
      · rw [List.getElem?_singleton] at found
        split at found
        · cases found
          exact absurd same own
        · cases found
    · obtain rfl := List.mem_singleton.mp listed
      exact ⟨by simp [Event.starts, own], fun _ => Event.noConfusion⟩

/-- The end of a process is stored. -/
theorem Sound.finish (sound : Sound s ref) {pid : Nat} {ending : Int} (here : s.launches[tid]? = some ⟨spec, .finishing pid ending⟩)
    (now code : Int) : Sound (s.finish tid now spec code) ref := by
  by_cases own : spec.taskRunID = ref
  · subst own
    obtain ⟨t, known, owner, unfinished⟩ := sound.held tid _ here rfl rfl
    have stored : (s.finish tid now spec code).tasks spec.taskRunID = some { t with finished := true, exitCode := code, finishedAt := now } := by
      refine (Function.update_self ..).trans ?_
      rw [known, Option.map_some]
    have idle (i : Nat) (l : Launched) (listed : (s.finish tid now spec code).launches[i]? = some l) (same : l.ref = spec.taskRunID) :
        l.phase.holds = false := by
      have listed := (State.go_launches here i).symm.trans listed
      split at listed
      · cases listed
        rfl
      · exact sound.others here rfl rfl listed same ‹_›
    refine ⟨?_, ?_, ?_, sound.single, fun _ => ⟨_, stored, .inl rfl⟩, sound.neverBack, fun _ _ => ⟨_, stored, rfl⟩, fun empty => ?_⟩
    · intro i l listed same lHolds
      rw [idle i l listed same] at lHolds
      cases lHolds
    · intro u found unended
      rw [stored] at found
      cases found
      cases unended
    · intro i p found same alive
      obtain ⟨j, l, listed, mine, has⟩ := sound.running i p found same alive
      by_cases apart : tid = j
      · subst apart
        rw [here] at listed
        cases listed
        cases has
      · have lHolds := Phase.holds_of_pid has
        rw [sound.others here rfl rfl listed mine apart] at lHolds
        cases lHolds
    · rw [sound.named empty] at known
      cases known
  · exact sound.frame (Function.update_of_ne (Ne.symm own) ..) (fun i l same _ => State.go_other here own i l same)
      (fun _ _ _ _ found => found) ⟨[], rfl, by simp⟩

theorem Sound.exit (sound : Sound s ref) (pid : Nat) (code : Int) : Sound (s.exit pid code) ref := by
  refine sound.frame rfl (fun _ _ _ _ => Iff.rfl) (fun i p _ alive found => ?_) ⟨[], rfl, by simp⟩
  have found : (s.procs.modify pid fun p => { p with exited := p.exited.or (some code) })[i]? = some p := found
  rw [List.getElem?_modify, Option.map_eq_map, Option.map_eq_some_iff] at found
  obtain ⟨old, listed, rfl⟩ := found
  split at alive
  · cases ended : old.exited <;> simp [ended] at alive
  · rename_i other
    rw [listed, if_neg other]

theorem Sound.probe (sound : Sound s ref) (asked : Ref) : Sound (s.note (.probed asked (probe s.tasks asked))) ref := by
  by_cases own : asked = ref
  · subst own
    have path : since asked (s.note (.probed asked (Executor.probe s.tasks asked))).history =
        .probed asked (Executor.probe s.tasks asked) :: since asked s.history := since_cons rfl
    refine ⟨sound.held, sound.holder, sound.running, ?_, ?_, ?_, ?_, sound.named⟩
    · rw [path, List.countP_cons_of_neg (by simp [Event.starts])]
      exact sound.single
    · rw [path, List.countP_cons_of_neg (by simp [Event.starts])]
      exact sound.begun
    · rw [path]
      refine List.pairwise_cons.mpr ⟨fun earlier listed code running before => ?_, sound.neverBack⟩
      -- the entry was finished at the earlier answer and still is
      obtain ⟨t, known, finished⟩ := sound.ended code (before ▸ listed)
      simp [Executor.probe, known, finished] at running
    · intro code seen
      rw [path] at seen
      rcases List.mem_cons.mp seen with same | old
      · cases known : s.tasks asked with
        | none => simp [Executor.probe, known] at same
        | some t =>
          refine ⟨t, known, ?_⟩
          by_contra unfinished
          simp [Executor.probe, known, unfinished] at same
      · exact sound.ended code old
  · refine sound.frame rfl (fun _ _ _ _ => Iff.rfl) (fun _ _ _ _ found => found) ⟨[_], since_cons rfl, fun event listed => ?_⟩
    obtain rfl := List.mem_singleton.mp listed
    exact ⟨rfl, fun status same => own (by cases same; rfl)⟩

theorem Sound.enter (sound : Sound s ref) (here : s.launches[tid]? = some ⟨spec, .entering⟩) (now : Int) : Sound (s.enter tid now spec) ref := by
  unfold State.enter
  split
  · refine (sound.go (b := .failed) here rfl rfl fun _ none => by cases none).frame rfl (fun _ _ _ _ => Iff.rfl) (fun _ _ _ _ found => found)
      ⟨[_], since_cons rfl, fun event listed => ?_⟩
    obtain rfl := List.mem_singleton.mp listed
    exact ⟨rfl, fun _ => Event.noConfusion⟩
  · have swept := sound.sweep now
    cases taken : reserve (s.sweep now).tasks spec.taskRunID tid with
    | none =>
      simp only [taken]
      exact swept.go (b := .known) here rfl rfl fun _ none => by cases none
    | some tasks =>
      obtain ⟨free, rfl⟩ := reserve_eq_some.mp taken
      simp only [taken]
      exact swept.claim here ‹_› free

theorem Sound.attach (sound : Sound s ref) {pid : Nat} (here : s.launches[tid]? = some ⟨spec, .attaching pid⟩) :
    Sound (s.attach tid spec pid) ref := by
  refine (sound.go (b := .watching pid) here rfl rfl fun _ same => .inl same).retouch ?_
  change (Executor.attach s.tasks spec.taskRunID tid (pid + 1) ref).map _ = (s.tasks ref).map _
  unfold Executor.attach
  by_cases own : ref = spec.taskRunID
  · subst own
    rw [Function.update_self, Option.map_map]
    congr 1
    funext t
    simp only [Function.comp_apply]
    split <;> rfl
  · rw [Function.update_of_ne own]

theorem Sound.act (sound : Sound s ref) {now : Int} {ok : Bool} (acted : s.act tid now ok = some u) : Sound u ref := by
  unfold State.act at acted
  cases here : s.launches[tid]? with
  | none => simp [here] at acted
  | some l =>
    obtain ⟨spec, phase⟩ := l
    cases phase with simp only [here, Option.some.injEq, Option.map_eq_some_iff, reduceCtorEq] at acted
    | entering => exact acted ▸ sound.enter here now
    | opening =>
      subst acted
      split
      · exact sound.go here rfl rfl fun _ none => by cases none
      · exact sound.fail here rfl rfl
    | staging =>
      subst acted
      split
      · exact sound.go here rfl rfl fun _ none => by cases none
      · exact sound.fail here rfl rfl
    | starting =>
      subst acted
      split
      · exact sound.start here
      · exact sound.fail here rfl rfl
    | attaching pid => exact acted ▸ sound.attach here
    | watching pid =>
      split at acted
      · obtain ⟨code, ended, rfl⟩ := Option.map_eq_some_iff.mp acted
        refine sound.go here rfl rfl fun other same => .inr ?_
        cases same
        rw [ended]
        exact Option.some_ne_none code
      · split at acted
        · cases acted
          exact (sound.exit pid (-1)).go here rfl rfl fun _ same => .inl same
        · cases acted
    | reaping pid =>
      obtain ⟨code, ended, rfl⟩ := acted
      refine sound.go here rfl rfl fun other same => .inr ?_
      cases same
      rw [ended]
      exact Option.some_ne_none code
    | finishing pid code => exact acted ▸ sound.finish here now code

theorem Sound.step (sound : Sound s ref) {label : Label} (stepped : s.step label = some u) : Sound u ref := by
  cases label with
  | launch spec =>
    cases stepped
    exact sound.launch spec
  | act tid now ok => exact sound.act stepped
  | cancel asked =>
    cases stepped
    split
    · exact sound.frame rfl (fun _ _ _ _ => Iff.rfl) (fun _ _ _ _ found => found) ⟨[], rfl, by simp⟩
    · exact sound
  | kill i =>
    obtain ⟨pgid, _, rfl⟩ := Option.map_eq_some_iff.mp stepped
    exact sound.exit _ _
  | probe asked =>
    cases stepped
    exact sound.probe asked
  | exit pid code =>
    cases stepped
    exact sound.exit pid code

/-- The step by which a launch fails gives up its ref. -/
theorem free_of_failed (sound : Sound s spec.taskRunID) {now : Int} {ok : Bool} (acted : s.act tid now ok = some u)
    (failed : u.launches[tid]? = some ⟨spec, .failed⟩) : u.tasks spec.taskRunID = none := by
  -- a launch that has moved to another phase has not failed
  have moved {v : State} {spec' : Spec} {old new : Phase} (here : v.launches[tid]? = some ⟨spec', old⟩)
      (at_ : (v.go tid spec' new).launches[tid]? = some ⟨spec, .failed⟩) : spec' = spec ∧ new = .failed := by
    rw [State.go_launches here, if_pos rfl] at at_
    cases at_
    exact ⟨rfl, rfl⟩
  have gaveUp {spec' : Spec} {old : Phase} (here : s.launches[tid]? = some ⟨spec', old⟩)
      (at_ : (s.fail tid spec').launches[tid]? = some ⟨spec, .failed⟩) : (s.fail tid spec').tasks spec.taskRunID = none := by
    obtain ⟨rfl, _⟩ := moved here at_
    exact Function.update_self ..
  unfold State.act at acted
  cases here : s.launches[tid]? with
  | none => simp [here] at acted
  | some l =>
    obtain ⟨spec', phase⟩ := l
    cases phase with simp only [here, Option.some.injEq, Option.map_eq_some_iff, reduceCtorEq] at acted
    | entering =>
      subst acted
      unfold State.enter at failed ⊢
      split at failed
      · obtain ⟨rfl, _⟩ := moved here failed
        rw [if_pos ‹_›]
        exact sound.named ‹_›
      · have here : (s.sweep now).launches[tid]? = some ⟨spec', .entering⟩ := here
        simp only at failed
        split at failed
        · cases (moved here failed).2
        · cases (moved here failed).2
    | opening | staging | starting =>
      subst acted
      split at failed
      · cases (moved here failed).2
      · rw [if_neg ‹_›]
        exact gaveUp here failed
    | attaching pid =>
      subst acted
      cases (moved here failed).2
    | watching pid =>
      split at acted
      · obtain ⟨code, _, rfl⟩ := Option.map_eq_some_iff.mp acted
        cases (moved here failed).2
      · split at acted
        · cases acted
          cases (moved (v := s.exit pid (-1)) here failed).2
        · cases acted
    | reaping pid =>
      obtain ⟨code, _, rfl⟩ := acted
      cases (moved here failed).2
    | finishing pid code =>
      subst acted
      cases (moved here failed).2

/-- A process that runs keeps its entry from being swept. -/
theorem ended_of_swept (sound : Sound s ref) {now : Int} (swept : sweepFinishedLocked s.tasks now ref = none)
    {p : Proc} (listed : p ∈ s.procs) (own : p.ref = ref) : p.exited ≠ none := by
  intro alive
  obtain ⟨pid, at_⟩ := List.mem_iff_getElem?.mp listed
  obtain ⟨tid, l, launched, same, has⟩ := sound.running pid p at_ own alive
  obtain ⟨t, entry, _, unfinished⟩ := sound.held tid l launched same (Phase.holds_of_pid has)
  rw [sweep_keeps entry unfinished] at swept
  cases swept

end Lemmas

/-! ### Runs -/

/-- What a runner guarantees in a state: a process is started at most once between two evictions, a
launch that fails leaves no entry, no probe goes back, and no ref is evicted while its process runs. -/
structure Idempotent (s : State) : Prop where
  once : ∀ ref, (since ref s.history).countP (·.starts ref) ≤ 1
  clean : ∀ (tid : Nat) (now : Int) (ok : Bool) (u : State) (spec : Spec), s.act tid now ok = some u →
    u.launches[tid]? = some ⟨spec, .failed⟩ → u.tasks spec.taskRunID = none
  forward : ∀ ref, NeverBack ref (since ref s.history)
  evicts : ∀ (now : Int) (ref : Ref), s.tasks ref ≠ none → sweepFinishedLocked s.tasks now ref = none →
    ∀ p ∈ s.procs, p.ref = ref → p.exited ≠ none

theorem sound_of_reach {s : State} (reached : Reach State.step (fun _ _ => True) .init s) (ref : Ref) : Sound s ref := by
  induction reached with
  | refl => exact Sound.init
  | next label _ _ stepped ih => exact ih.step stepped

/-- Whatever the order of launches, cancels, probes and exits. -/
theorem launches_idempotent {s : State} (reached : Reach State.step (fun _ _ => True) .init s) : Idempotent s where
  once ref := (sound_of_reach reached ref).single
  clean _ _ _ _ spec acted failed := free_of_failed (sound_of_reach reached spec.taskRunID) acted failed
  forward ref := (sound_of_reach reached ref).neverBack
  evicts _ ref _ swept _ listed own := ended_of_swept (sound_of_reach reached ref) swept listed own

/-- Two launches of one ref, the second while the first opens its log; the process ends and is probed. -/
def twoLaunches : List Label :=
  [.launch { taskRunID := "r" }, .launch { taskRunID := "r" }, .act 0 0 true, .act 1 0 true, .act 0 0 true, .act 0 0 true, .act 0 0 true,
    .act 0 0 true, .probe "r", .cancel "r", .kill 0, .act 0 0 true, .act 0 5 true, .probe "r"]

theorem twoLaunches_idempotent : ∃ s, runSteps State.step .init twoLaunches = some s ∧ s.procs.length = 1 ∧ Idempotent s := by
  have ran : (runSteps State.step .init twoLaunches).map (·.procs.length) = some 1 := by decide +kernel
  obtain ⟨s, ran, one⟩ := Option.map_eq_some_iff.mp ran
  exact ⟨s, ran, one, launches_idempotent (EachStep.reach (eachStep_true twoLaunches State.init) ran)⟩

end Cronova.Executor
