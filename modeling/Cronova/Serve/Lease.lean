import Cronova.Calendar
import Cronova.Process.Reach
import Mathlib.Logic.Function.Basic

/-! The scheduler lease (`internal/store/sqlite/lease.go` and its port to PostgreSQL) and the
`serve` processes that compete for it (`cmd/cronova/main.go`).

The lease is one row. A process schedules after it has acquired the row, renews it from a
heartbeat, and ticks without looking at it.
-/

set_option autoImplicit false

namespace Cronova.Serve

open Calendar (Time)
open Process

structure Lease (P : Type) where
  holder : P
  expiresAt : Time
  deriving Repr, DecidableEq

inductive LeaseError where
  | held
  | lost
  deriving Repr, DecidableEq

def leaseTTL : Time := 15 * Calendar.second

section Statements

variable {P : Type} [DecidableEq P] (now : Time) (holder : P)

/-- `AcquireLease`: the row is absent, expired or already ours. -/
def acquireLease : Option (Lease P) → Except LeaseError (Lease P)
  | none => .ok ⟨holder, now + leaseTTL⟩
  | some l => if l.holder ≠ holder ∧ now < l.expiresAt then .error .held else .ok ⟨holder, now + leaseTTL⟩

/-- `RenewLease`: `UPDATE … WHERE id = 1 AND holder = ?`, whether or not the lease has expired. -/
def renewLease : Option (Lease P) → Except LeaseError (Lease P)
  | none => .error .lost
  | some l => if l.holder = holder then .ok { l with expiresAt := now + leaseTTL } else .error .lost

/-- `ReleaseLease`. -/
def releaseLease : Option (Lease P) → Option (Lease P)
  | none => none
  | some l => if l.holder = holder then none else some l

end Statements

/-- The state of a `serve` process. -/
inductive Phase where
  /-- Before its lease; a standby process tries again and again. -/
  | waiting
  /-- `Run`, with the heartbeat beside it until the context is cancelled. -/
  | serving (cancelled : Bool)
  /-- The loop has ended and the lease is not released yet. -/
  | draining
  | gone
  deriving Repr, DecidableEq

structure Server (T : Type) where
  phase : Phase
  /-- A tick in progress, with the task instances that it has found ready. -/
  tick : Option (List T)

def Phase.isServing : Phase → Bool
  | serving _ => true
  | _ => false

/-- `acquired` and `dispatched` record the history: who acquired the lease last, and who
dispatched what. -/
structure State (P T : Type) where
  now : Time
  lease : Option (Lease P)
  /-- The attempts that wait for their dispatch. -/
  ready : List T
  server : P → Server T
  acquired : Option P
  dispatched : List (P × T)

/-- What becomes of a statement: it is not executed, it is executed and its answer is lost, or
it is executed and answered. -/
inductive Reply where
  | failed
  | unanswered
  | answered
  deriving Repr, DecidableEq

inductive Step (P T : Type) where
  | advance (elapsed : Nat)
  /-- An attempt becomes ready. -/
  | arrive (task : T)
  | acquire (p : P) (standby : Bool) (reply : Reply)
  | renew (p : P) (reply : Reply)
  /-- A signal or a failed console cancels the context. -/
  | cancel (p : P)
  | beginTick (p : P)
  /-- The tick lists what is ready. -/
  | list (p : P)
  | dispatch (p : P) (task : T)
  | endTick (p : P)
  /-- `Run` returns. -/
  | leave (p : P)
  | release (p : P) (reply : Reply)
  | crash (p : P)

section Machine

variable {P T : Type} [DecidableEq P] [DecidableEq T]

def State.become (s : State P T) (p : P) (server : Server T) : State P T :=
  { s with server := Function.update s.server p server }

/-- The lease taken by a process, whose `serve` goes on if it has the answer. -/
def State.takes (s : State P T) (p : P) (l : Lease P) (reply : Reply) : State P T :=
  { s with
    lease := some l
    acquired := some p
    server := Function.update s.server p
      { phase := match reply with | .answered => .serving false | _ => .gone, tick := none } }

def step (s : State P T) : Step P T → Option (State P T)
  | .advance elapsed => some { s with now := s.now + elapsed }
  | .arrive task =>
    if task ∈ s.ready ∨ task ∈ s.dispatched.map (·.2) then none else some { s with ready := s.ready ++ [task] }
  | .acquire p standby reply =>
    match (s.server p).phase, reply with
    | .waiting, .failed => some (s.become p ⟨.gone, none⟩)
    | .waiting, reply => match acquireLease s.now p s.lease with
      | .ok l => some (s.takes p l reply)
      | .error _ => some (s.become p ⟨if standby ∧ reply = .answered then .waiting else .gone, none⟩)
    | _, _ => none
  | .renew p reply =>
    match (s.server p).phase, reply with
    -- an error other than a lost lease is logged and the heartbeat goes on
    | .serving false, .failed => some s
    | .serving false, reply => match renewLease s.now p s.lease with
      | .ok l => some { s with lease := some l }
      | .error _ => some (if reply = .answered then s.become p { s.server p with phase := .serving true } else s)
    | _, _ => none
  | .cancel p =>
    if (s.server p).phase.isServing then some (s.become p { s.server p with phase := .serving true }) else none
  | .beginTick p =>
    if (s.server p).phase.isServing ∧ (s.server p).tick = none then
      some (s.become p { s.server p with tick := some [] }) else none
  -- the statements of a tick fail once the context is cancelled
  | .list p => match s.server p with
    | ⟨.serving false, some _⟩ => some (s.become p ⟨.serving false, some s.ready⟩)
    | _ => none
  | .dispatch p task => match s.server p with
    | ⟨.serving false, some found⟩ =>
      if task ∈ found then
        some { s.become p ⟨.serving false, some (found.filter (· ≠ task))⟩ with
          ready := s.ready.filter (· ≠ task)
          dispatched := s.dispatched ++ [(p, task)] }
      else none
    | _ => none
  | .endTick p =>
    if (s.server p).tick = none then none else some (s.become p { s.server p with tick := none })
  | .leave p =>
    if (s.server p).phase.isServing ∧ (s.server p).tick = none then some (s.become p ⟨.draining, none⟩) else none
  | .release p reply =>
    if (s.server p).phase = .draining then
      some { s.become p ⟨.gone, none⟩ with lease := if reply = .failed then s.lease else releaseLease p s.lease }
    else none
  | .crash p => some (s.become p ⟨.gone, none⟩)

/-- The process whose tick goes on with the step. -/
def Step.ticker : Step P T → Option P
  | .beginTick p | .list p | .dispatch p _ | .endTick p => some p
  | _ => none

/-- Any lease may be there when the first process starts. -/
def start (now : Time) (lease : Option (Lease P)) (ready : List T) : State P T where
  now
  lease
  ready
  server _ := ⟨.waiting, none⟩
  acquired := none
  dispatched := []

/-- No tick runs after another process has acquired the lease, and no attempt is dispatched by
two processes. -/
def State.Exclusive (s : State P T) : Prop :=
  (∀ label p, label.ticker = some p → (step s label).isSome → s.acquired = some p) ∧
  ∀ p q task, (p, task) ∈ s.dispatched → (q, task) ∈ s.dispatched → p = q

/-- An expired lease is taken over only when its holder's loop has ended. -/
def Orderly (s : State P T) : Step P T → Prop
  | .acquire p _ _ => ∀ l ∈ s.lease, l.holder ≠ p → l.expiresAt ≤ s.now → (s.server l.holder).phase.isServing = false
  | _ => True

instance (s : State P T) : ∀ label, Decidable (Orderly s label)
  | .acquire p _ _ => inferInstanceAs (Decidable (∀ l ∈ s.lease, l.holder ≠ p → l.expiresAt ≤ s.now →
      (s.server l.holder).phase.isServing = false))
  | .advance _ | .arrive _ | .renew _ _ | .cancel _ | .beginTick _ | .list _ | .dispatch _ _ | .endTick _ | .leave _
  | .release _ _ | .crash _ => .isTrue trivial

/-! ### The invariant -/

structure Inv (s : State P T) : Prop where
  holds : ∀ p, (s.server p).phase.isServing = true → (∃ l, s.lease = some l ∧ l.holder = p) ∧ s.acquired = some p
  ticks : ∀ p found, (s.server p).tick = some found → (s.server p).phase.isServing = true ∧ ∀ task ∈ found, task ∈ s.ready
  fresh : ∀ q task, (q, task) ∈ s.dispatched → task ∉ s.ready
  once : ∀ p q task, (p, task) ∈ s.dispatched → (q, task) ∈ s.dispatched → p = q

namespace Inv

variable {s : State P T} {p : P}

omit [DecidableEq P] [DecidableEq T] in
theorem start (now : Time) (lease : Option (Lease P)) (ready : List T) : Inv (start now lease ready) := by
  constructor
  · intro p serving
    cases serving
  · intro p found running
    cases running
  · intro q task listed
    cases listed
  · intro p q task listed
    cases listed

omit [DecidableEq P] [DecidableEq T] in
/-- At most one process schedules. -/
theorem only (inv : Inv s) {p q : P} (left : (s.server p).phase.isServing = true)
    (right : (s.server q).phase.isServing = true) : p = q := by
  have first := (inv.holds p left).2
  rw [(inv.holds q right).2] at first
  exact (Option.some.inj first).symm

omit [DecidableEq T] in
/-- A process changes for itself, without starting to schedule. -/
theorem become (inv : Inv s) (server : Server T)
    (serving : server.phase.isServing = true → (s.server p).phase.isServing = true)
    (tick : ∀ found, server.tick = some found → server.phase.isServing = true ∧ ∀ task ∈ found, task ∈ s.ready) :
    Inv (s.become p server) := by
  refine ⟨fun q => ?_, fun q found => ?_, inv.fresh, inv.once⟩
  · by_cases own : q = p
    · subst own
      simp only [State.become, Function.update_self]
      exact fun now => inv.holds q (serving now)
    · simp only [State.become, Function.update_of_ne own]
      exact inv.holds q
  · by_cases own : q = p
    · subst own
      simp only [State.become, Function.update_self]
      exact tick found
    · simp only [State.become, Function.update_of_ne own]
      exact inv.ticks q found

omit [DecidableEq T] in
theorem ends (inv : Inv s) {phase : Phase} (left : phase.isServing = false) : Inv (s.become p ⟨phase, none⟩) := by
  apply inv.become
  · intro serving
    rw [left] at serving
    cases serving
  · intro found running
    cases running

omit [DecidableEq T] in
/-- The lease changes hands while no other process schedules. -/
theorem takes (inv : Inv s) {l : Lease P} (own : l.holder = p) (reply : Reply)
    (idle : ∀ q, q ≠ p → (s.server q).phase.isServing = false) : Inv (s.takes p l reply) := by
  have others {q : P} (other : q ≠ p) (serving : (s.server q).phase.isServing = true) : False := by
    rw [idle q other] at serving
    cases serving
  refine ⟨fun q serving => ?_, fun q found running => ?_, inv.fresh, inv.once⟩
  · by_cases same : q = p
    · exact ⟨⟨l, rfl, own.trans same.symm⟩, congrArg some same.symm⟩
    · simp only [State.takes, Function.update_of_ne same] at serving
      exact (others same serving).elim
  · by_cases same : q = p
    · subst same
      simp only [State.takes, Function.update_self] at running
      cases running
    · simp only [State.takes, Function.update_of_ne same] at running
      exact (others same (inv.ticks q found running).1).elim

omit [DecidableEq P] [DecidableEq T] in
/-- A new row under the same holder. -/
theorem renewed (inv : Inv s) {l : Lease P} (serving : (s.server p).phase.isServing = true) (own : l.holder = p) :
    Inv { s with lease := some l } := by
  refine ⟨fun q now => ?_, inv.ticks, inv.fresh, inv.once⟩
  have same := inv.only now serving
  exact ⟨⟨l, rfl, own.trans same.symm⟩, (inv.holds q now).2⟩

theorem dispatches (inv : Inv s) {found : List T} {task : T} (running : s.server p = ⟨.serving false, some found⟩)
    (listed : task ∈ found) :
    Inv { s.become p ⟨.serving false, some (found.filter (· ≠ task))⟩ with
      ready := s.ready.filter (· ≠ task)
      dispatched := s.dispatched ++ [(p, task)] } := by
  have serving : (s.server p).phase.isServing = true := by rw [running]; rfl
  have present : ∀ other ∈ found, other ∈ s.ready := (inv.ticks p found (by rw [running])).2
  have new : ∀ q, (q, task) ∉ s.dispatched := fun q listed' => inv.fresh q task listed' (present task listed)
  constructor
  · intro q now
    by_cases own : q = p
    · exact own ▸ inv.holds p serving
    · simp only [State.become, Function.update_of_ne own] at now
      exact inv.holds q now
  · intro q found' running'
    by_cases own : q = p
    · subst own
      simp only [State.become, Function.update_self] at running' ⊢
      cases running'
      refine ⟨rfl, fun other member => ?_⟩
      obtain ⟨member, different⟩ := List.mem_filter.mp member
      exact List.mem_filter.mpr ⟨present other member, different⟩
    · simp only [State.become, Function.update_of_ne own] at running'
      exact absurd (inv.only (inv.ticks q found' running').1 serving) own
  · intro q other logged member
    obtain ⟨member, different⟩ := List.mem_filter.mp member
    rcases List.mem_append.mp logged with old | last
    · exact inv.fresh q other old member
    · cases List.mem_singleton.mp last
      simp at different
  · intro q r other left right
    rcases List.mem_append.mp left with old | last
    · rcases List.mem_append.mp right with old' | last'
      · exact inv.once q r other old old'
      · cases List.mem_singleton.mp last'
        exact absurd old (new q)
    · cases List.mem_singleton.mp last
      rcases List.mem_append.mp right with old' | last'
      · exact absurd old' (new r)
      · cases List.mem_singleton.mp last'
        rfl

omit [DecidableEq T] in
/-- A lease that its holder's loop still needs is not free for the taking. -/
theorem idle_of_acquireLease (inv : Inv s) {l : Lease P} {standby : Bool} {reply : Reply}
    (orderly : Orderly s (.acquire p standby reply)) (taken : acquireLease s.now p s.lease = .ok l) :
    l.holder = p ∧ ∀ q, q ≠ p → (s.server q).phase.isServing = false := by
  have own : l.holder = p := by
    unfold acquireLease at taken
    split at taken
    · cases taken
      rfl
    · split at taken
      · cases taken
      · cases taken
        rfl
  refine ⟨own, fun q other => ?_⟩
  cases serving : (s.server q).phase.isServing with
  | false => rfl
  | true =>
    obtain ⟨⟨row, stored, holder⟩, _⟩ := inv.holds q serving
    rw [stored, acquireLease] at taken
    split at taken
    · cases taken
    rename_i free
    have different : row.holder ≠ p := holder ▸ other
    have expired : row.expiresAt ≤ s.now := Int.not_lt.mp fun alive => free ⟨different, alive⟩
    have left := orderly row stored different expired
    rw [holder, serving] at left
    cases left

theorem renewLease_ok {now : Time} {lease : Option (Lease P)} {l : Lease P} (renewed : renewLease now p lease = .ok l) :
    l.holder = p := by
  unfold renewLease at renewed
  split at renewed
  · cases renewed
  · split at renewed
    · rename_i own
      cases renewed
      exact own
    · cases renewed

/-- One step. -/
theorem step (inv : Inv s) (label : Step P T) (orderly : Orderly s label) {t : State P T}
    (stepped : Serve.step s label = some t) : Inv t := by
  cases label with
  | advance elapsed =>
    cases stepped
    exact ⟨inv.holds, inv.ticks, inv.fresh, inv.once⟩
  | arrive task =>
    simp only [Serve.step] at stepped
    split at stepped
    · cases stepped
    rename_i new
    cases stepped
    obtain ⟨_, unknown⟩ := not_or.mp new
    refine ⟨inv.holds, fun p found running => ?_, fun q other logged member => ?_, inv.once⟩
    · obtain ⟨serving, present⟩ := inv.ticks p found running
      exact ⟨serving, fun other member => List.mem_append_left _ (present other member)⟩
    · rcases List.mem_append.mp member with old | last
      · exact inv.fresh q other logged old
      · cases List.mem_singleton.mp last
        exact unknown (List.mem_map_of_mem logged)
  | acquire p standby reply =>
    simp only [Serve.step] at stepped
    split at stepped
    · cases stepped
      exact inv.ends rfl
    · split at stepped
      · rename_i l taken
        cases stepped
        obtain ⟨own, idle⟩ := inv.idle_of_acquireLease orderly taken
        exact inv.takes own _ idle
      · cases stepped
        apply inv.ends
        split <;> rfl
    · cases stepped
  | renew p reply =>
    simp only [Serve.step] at stepped
    split at stepped
    · cases stepped
      exact inv
    · rename_i phase _
      have serving : (s.server p).phase.isServing = true := by rw [phase]; rfl
      split at stepped
      · rename_i l renewal
        cases stepped
        exact inv.renewed serving (renewLease_ok renewal)
      · cases stepped
        split
        · exact inv.become _ (fun _ => serving) fun found running => ⟨rfl, (inv.ticks p found running).2⟩
        · exact inv
    · cases stepped
  | cancel p =>
    simp only [Serve.step] at stepped
    split at stepped
    · rename_i serving
      cases stepped
      exact inv.become _ (fun _ => serving) fun found running => ⟨rfl, (inv.ticks p found running).2⟩
    · cases stepped
  | beginTick p =>
    simp only [Serve.step] at stepped
    split at stepped
    · rename_i may
      cases stepped
      refine inv.become _ (fun _ => may.1) fun found running => ?_
      cases running
      exact ⟨may.1, fun task member => absurd member List.not_mem_nil⟩
    · cases stepped
  | list p =>
    simp only [Serve.step] at stepped
    split at stepped
    · rename_i running
      cases stepped
      refine inv.become _ (fun _ => by rw [running]; rfl) fun found listed => ?_
      cases listed
      exact ⟨rfl, fun task member => member⟩
    · cases stepped
  | dispatch p task =>
    simp only [Serve.step] at stepped
    split at stepped
    · rename_i found running
      split at stepped
      · rename_i listed
        cases stepped
        exact inv.dispatches running listed
      · cases stepped
    · cases stepped
  | endTick p =>
    simp only [Serve.step] at stepped
    split at stepped
    · cases stepped
    · cases stepped
      exact inv.become _ (fun serving => serving) fun found running => nomatch running
  | leave p =>
    simp only [Serve.step] at stepped
    split at stepped
    · cases stepped
      exact inv.ends rfl
    · cases stepped
  | release p reply =>
    simp only [Serve.step] at stepped
    split at stepped
    · rename_i draining
      cases stepped
      have ended : Inv (s.become p ⟨.gone, none⟩) := inv.ends rfl
      refine ⟨fun q serving => ?_, ended.ticks, ended.fresh, ended.once⟩
      obtain ⟨⟨l, stored, own⟩, last⟩ := ended.holds q serving
      have other : q ≠ p := by
        rintro rfl
        simp [State.become, Phase.isServing] at serving
      refine ⟨⟨l, ?_, own⟩, last⟩
      replace stored : s.lease = some l := stored
      split
      · exact stored
      · rw [stored, releaseLease, if_neg (own ▸ other)]
    · cases stepped
  | crash p =>
    cases stepped
    exact inv.ends rfl

theorem exclusive (inv : Inv s) : s.Exclusive := by
  refine ⟨fun label p ticks possible => ?_, inv.once⟩
  suffices serving : (s.server p).phase.isServing = true from (inv.holds p serving).2
  obtain ⟨t, stepped⟩ := Option.isSome_iff_exists.mp possible
  cases label <;> cases ticks
  case beginTick =>
    simp only [Serve.step] at stepped
    split at stepped
    · rename_i may
      exact may.1
    · cases stepped
  case list =>
    simp only [Serve.step] at stepped
    split at stepped
    · rename_i running
      rw [running]
      rfl
    · cases stepped
  case dispatch =>
    simp only [Serve.step] at stepped
    split at stepped
    · rename_i running
      rw [running]
      rfl
    · cases stepped
  case endTick =>
    simp only [Serve.step] at stepped
    split at stepped
    · cases stepped
    · rename_i running
      obtain ⟨found, running⟩ := Option.ne_none_iff_exists'.mp running
      exact (inv.ticks p found running).1

end Inv

end Machine

/-! Two processes and one attempt. -/

def first : Bool := true

def second : Bool := false

end Cronova.Serve
