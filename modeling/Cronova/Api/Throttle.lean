import Cronova.Api.Forwarded
import Cronova.Api.Limiter
import Cronova.Process.Reach
import Mathlib.Data.List.Chain

/-! Login handlers in parallel.

Looking at the limiter and counting a failure are two critical sections with the password check in
between. Where at most one handler of a name is between them once failures lock, every further failure
was begun after the lockout of the one before it.
-/

set_option autoImplicit false

namespace Cronova.Api

open Process (Reach)

structure Attempt where
  username : List Char
  addr : List Char

def userKey (username : List Char) : List Char := "u:".toList ++ username

def Attempt.keys (a : Attempt) : List (List Char) := loginKeys a.username a.addr

/-- A handler reads the clock once; the password check begins when the limiter lets it pass. -/
inductive LoginPhase where
  | idle
  | arrived (now : Nat)
  | checking (now begun : Nat)
  | checked (now begun : Nat) (good : Bool)
  | refused
  | done
  deriving DecidableEq, Repr

/-- A password check that failed, and the lockout of its name that it armed. -/
structure FailedCheck where
  arrived : Nat
  begun : Nat
  lock : Option Nat
  deriving DecidableEq, Repr

def FailedCheck.lockedUntil (x : FailedCheck) : Nat :=
  match x.lock with
  | none => 0
  | some lock => x.arrived + lock

/-- `flight` are the handlers between the two critical sections; `failed` are the failing checks of each
name in the order in which they are counted. -/
structure LoginState where
  limiter : LoginLimiter := Table.empty
  clock : Nat := 1
  phases : Nat → LoginPhase := fun _ => .idle
  flight : List Nat := []
  failed : List Char → List FailedCheck := fun _ => []

inductive LoginLabel where
  | arrive (i t : Nat)
  | retryAfter (i t : Nat)
  | checkPassword (i : Nat) (good : Bool)
  | settle (i : Nat)
  deriving DecidableEq, Repr

def LoginState.phase (s : LoginState) (i : Nat) (phase : LoginPhase) : LoginState :=
  { s with phases := Function.update s.phases i phase }

variable (attempts : Nat → Attempt)

def LoginState.step (s : LoginState) : LoginLabel → Option LoginState
  | .arrive i t => if s.phases i = .idle ∧ s.clock ≤ t then some ({ s with clock := t }.phase i (.arrived t)) else none
  | .retryAfter i t =>
    match s.phases i with
    | .arrived now =>
      if s.clock ≤ t then
        if 0 < s.limiter.retryAfter now (attempts i).keys then some ({ s with clock := t }.phase i .refused)
        else some ({ s with clock := t, flight := i :: s.flight }.phase i (.checking now t))
      else none
    | _ => none
  | .checkPassword i good =>
    match s.phases i with
    | .checking now begun => some (s.phase i (.checked now begun good))
    | _ => none
  | .settle i =>
    match s.phases i with
    | .checked now begun good =>
      let s := { s with flight := s.flight.erase i }.phase i .done
      let a := attempts i
      if good then some { s with limiter := s.limiter.ok a.keys }
      else
        let lock := lockout (userKey a.username) ((s.limiter.prune now).fails (userKey a.username) + 1)
        some { s with limiter := s.limiter.fail now a.keys,
                      failed := Function.update s.failed a.username (s.failed a.username ++ [⟨now, begun, lock⟩]) }
    | _ => none

/-- How many handlers of a name are between the critical sections. -/
def LoginState.underWay (s : LoginState) (username : List Char) : Nat :=
  s.flight.countP fun i => (attempts i).username == username

/-- A handler is let pass while no other handler of its name is under way, or while those that are and
the failures so far stay within the free failures. -/
def CalmLogin (s : LoginState) : LoginLabel → Prop
  | .retryAfter i _ =>
    s.underWay attempts (attempts i).username = 0 ∨
      s.limiter.fails (userKey (attempts i).username) + s.underWay attempts (attempts i).username ≤ loginUserFreeFails
  | _ => True

instance (s : LoginState) : ∀ label, Decidable (CalmLogin attempts s label)
  | .retryAfter _ _ => inferInstanceAs (Decidable (_ ∨ _))
  | .arrive _ _ | .checkPassword _ _ | .settle _ => inferInstanceAs (Decidable True)

/-- What each failing check says about the one before. -/
structure FailedCheck.Follows (a b : FailedCheck) : Prop where
  begun : a.lockedUntil ≤ b.begun
  arrived : b.lock.isSome → a.lockedUntil ≤ b.arrived

def LoginPhase.waiting : LoginPhase → Option (Nat × Nat)
  | .checking now begun => some (now, begun)
  | .checked now begun _ => some (now, begun)
  | _ => none

/-- The handlers under way are those that were let pass, at times that have gone by. -/
structure LoginState.Timed (s : LoginState) : Prop where
  nodup : s.flight.Nodup
  flight : ∀ i, i ∈ s.flight ↔ (s.phases i).waiting.isSome
  arrived : ∀ i now, s.phases i = .arrived now → now ≤ s.clock
  waiting : ∀ i w, (s.phases i).waiting = some w → w.1 ≤ s.clock ∧ w.2 ≤ s.clock

/-- What the limiter, the handlers under way and the failing checks of a name say about one another. -/
structure LoginState.Sound (s : LoginState) (u : List Char) : Prop where
  few : s.underWay attempts u ≤ 1 ∨ s.limiter.fails (userKey u) + s.underWay attempts u ≤ loginUserFreeFails + 1
  /-- The last lockout is in force, or it was forgotten with the failures after it had expired. -/
  last : ∀ x ∈ (s.failed u).getLast?, x.lockedUntil ≤ s.limiter.lockedUntil (userKey u) ∨
    s.limiter.fails (userKey u) < loginUserFreeFails ∧ x.lockedUntil ≤ s.clock
  /-- Who is under way has waited for it, unless its own failure is still free. -/
  waited : ∀ i w, (attempts i).username = u → (s.phases i).waiting = some w → ∀ x ∈ (s.failed u).getLast?,
    x.lockedUntil ≤ w.2 ∧ (x.lockedUntil ≤ w.1 ∨ s.limiter.fails (userKey u) < loginUserFreeFails)
  chain : (s.failed u).IsChain FailedCheck.Follows
  long : ∀ x ∈ s.failed u, ∀ lock ∈ x.lock, loginLockBase ≤ lock

variable {attempts} {s t : LoginState}

theorem isIPKey_userKey (u : List Char) : isIPKey (userKey u) = false := rfl

theorem userKey_ne_addr (u : List Char) (a : Attempt) : userKey u ∉ ["ip:".toList ++ a.addr] := by
  simp [userKey]

theorem userKey_injective {u v : List Char} (same : userKey u = userKey v) : u = v := by simpa [userKey] using same

theorem keys_eq (a : Attempt) : a.keys = [userKey a.username, "ip:".toList ++ a.addr] := rfl

theorem userKey_mem_keys {u : List Char} {a : Attempt} : userKey u ∈ a.keys ↔ u = a.username := by
  rw [keys_eq, List.mem_cons]
  constructor
  · rintro (same | address)
    · exact userKey_injective same
    · exact absurd address (userKey_ne_addr u a)
  · intro same
    exact .inl (same ▸ rfl)

theorem phases_phase (i j : Nat) (phase : LoginPhase) : (s.phase i phase).phases j = if j = i then phase else s.phases j := by
  simp [LoginState.phase, Function.update_apply]

/-- One handler takes a phase, and is under way or not as the phase says. -/
theorem LoginState.Timed.become (timed : s.Timed) {i clock : Nat} {phase : LoginPhase} {flight : List Nat} (later : s.clock ≤ clock)
    (nodup : flight.Nodup) (members : ∀ j, j ∈ flight ↔ if j = i then phase.waiting.isSome = true else j ∈ s.flight)
    (read : ∀ n, phase = .arrived n → n ≤ clock) (past : ∀ w, phase.waiting = some w → w.1 ≤ clock ∧ w.2 ≤ clock) :
    ({ s with clock, flight }.phase i phase).Timed where
  nodup := nodup
  flight j := by
    change j ∈ flight ↔ _
    rw [phases_phase, members]
    split
    · rfl
    · exact timed.flight j
  arrived j n arrives := by
    rw [phases_phase] at arrives
    split at arrives
    · exact read n arrives
    · exact Nat.le_trans (timed.arrived j n arrives) later
  waiting j w waits := by
    rw [phases_phase] at waits
    split at waits
    · exact past w waits
    · have before := timed.waiting j w waits
      exact ⟨Nat.le_trans before.1 later, Nat.le_trans before.2 later⟩

theorem LoginState.Timed.not_mem (timed : s.Timed) {i : Nat} (idle : (s.phases i).waiting = none) : i ∉ s.flight := by
  simp [timed.flight, idle]

theorem LoginState.Timed.step (timed : s.Timed) {label : LoginLabel} (stepped : s.step attempts label = some t) :
    t.Timed ∧ s.clock ≤ t.clock := by
  -- A phase that is not under way, of a handler that was not.
  have stays {i : Nat} (absent : i ∉ s.flight) (j : Nat) : j ∈ s.flight ↔ if j = i then false = true else j ∈ s.flight := by
    split
    · rename_i same
      simp [same, absent]
    · rfl
  cases label with
  | arrive i now =>
    simp only [LoginState.step] at stepped
    split at stepped <;> cases stepped
    rename_i allowed
    have absent := timed.not_mem (i := i) (by rw [allowed.1]; rfl)
    exact ⟨timed.become allowed.2 timed.nodup (stays absent) (fun n same => by cases same; exact Nat.le_refl _) nofun, allowed.2⟩
  | retryAfter i now =>
    simp only [LoginState.step] at stepped
    split at stepped
    · rename_i read arrived
      have before := timed.arrived i read arrived
      have absent := timed.not_mem (i := i) (by rw [arrived]; rfl)
      split at stepped
      · rename_i later
        split at stepped
        · cases stepped
          exact ⟨timed.become later timed.nodup (stays absent) nofun nofun, later⟩
        · cases stepped
          refine ⟨timed.become later (List.nodup_cons.mpr ⟨absent, timed.nodup⟩) (fun j => ?_) nofun (fun w same => ?_), later⟩
          · rw [List.mem_cons]
            by_cases own : j = i
            · simp [own, LoginPhase.waiting]
            · simp [own]
          · cases same
            exact ⟨Nat.le_trans before later, Nat.le_refl _⟩
      · cases stepped
    · cases stepped
  | checkPassword i good =>
    simp only [LoginState.step] at stepped
    split at stepped <;> cases stepped
    rename_i read begun checking
    have present : i ∈ s.flight := by simp [timed.flight, checking, LoginPhase.waiting]
    refine ⟨timed.become (Nat.le_refl _) timed.nodup (fun j => ?_) nofun (fun w same => ?_), Nat.le_refl _⟩
    · split
      · rename_i same
        simp [same, present, LoginPhase.waiting]
      · rfl
    · exact timed.waiting i w (by rw [checking]; exact same)
  | settle i =>
    simp only [LoginState.step] at stepped
    split at stepped
    · have left : ({ s with flight := s.flight.erase i }.phase i .done).Timed := by
        refine timed.become (Nat.le_refl _) (timed.nodup.erase i) (fun j => ?_) nofun nofun
        rw [timed.nodup.mem_erase_iff]
        by_cases own : j = i
        · simp [own, LoginPhase.waiting]
        · simp [own]
      split at stepped <;> cases stepped
      · exact ⟨⟨left.nodup, left.flight, left.arrived, left.waiting⟩, Nat.le_refl _⟩
      · exact ⟨⟨left.nodup, left.flight, left.arrived, left.waiting⟩, Nat.le_refl _⟩
    · cases stepped

section Name

variable {u : List Char}

/-- What a step of other handlers, a pruning and a success leave of what is said about a name. -/
theorem LoginState.Sound.frame (sound : s.Sound attempts u) (later : s.clock ≤ t.clock) (failed : t.failed u = s.failed u)
    (underWay : t.underWay attempts u ≤ s.underWay attempts u)
    (waits : ∀ i w, (attempts i).username = u → (t.phases i).waiting = some w → (s.phases i).waiting = some w)
    (looks : t.limiter.lookup (userKey u) = s.limiter.lookup (userKey u) ∨
      t.limiter.lookup (userKey u) = none ∧ ∀ x ∈ (s.failed u).getLast?, x.lockedUntil ≤ t.clock) : t.Sound attempts u := by
  have fewer : t.limiter.fails (userKey u) ≤ s.limiter.fails (userKey u) := by
    rcases looks with same | ⟨none, -⟩
    · simp [LoginLimiter.fails, same]
    · simp [LoginLimiter.fails, none]
  refine ⟨?_, fun x last => ?_, fun i w own waiting x last => ?_, failed ▸ sound.chain, failed ▸ sound.long⟩
  · rcases sound.few with one | bound
    · exact .inl (Nat.le_trans underWay one)
    · exact .inr (Nat.le_trans (Nat.add_le_add fewer underWay) bound)
  · rw [failed] at last
    rcases looks with same | ⟨none, expired⟩
    · rcases sound.last x last with inForce | ⟨free, past⟩
      · exact .inl (by simpa [LoginLimiter.lockedUntil, same] using inForce)
      · exact .inr ⟨Nat.lt_of_le_of_lt fewer free, Nat.le_trans past later⟩
    · exact .inr ⟨by simp [LoginLimiter.fails, none, loginUserFreeFails], expired x last⟩
  · rw [failed] at last
    obtain ⟨begun, arrived⟩ := sound.waited i w own (waits i w own waiting) x last
    exact ⟨begun, arrived.imp_right fun free => Nat.lt_of_le_of_lt fewer free⟩

/-- A lockout that is forgotten after it has expired lies in the past. -/
theorem LoginState.Sound.expired (sound : s.Sound attempts u) {x : FailedCheck} (last : x ∈ (s.failed u).getLast?)
    (gone : s.limiter.lockedUntil (userKey u) ≤ s.clock) : x.lockedUntil ≤ s.clock := by
  rcases sound.last x last with inForce | ⟨-, past⟩
  · exact Nat.le_trans inForce gone
  · exact past

theorem LoginState.Sound.arrive (sound : s.Sound attempts u) {i clock : Nat} {phase : LoginPhase} (later : s.clock ≤ clock)
    (idle : phase.waiting = none) : ({ s with clock }.phase i phase).Sound attempts u := by
  refine sound.frame later rfl (Nat.le_refl _) (fun j w own waiting => ?_) (.inl rfl)
  rw [phases_phase] at waiting
  split at waiting
  · rw [idle] at waiting
    cases waiting
  · exact waiting

theorem underWay_cons (i : Nat) :
    LoginState.underWay attempts { s with flight := i :: s.flight } u =
      s.underWay attempts u + if (attempts i).username = u then 1 else 0 := by
  simp [LoginState.underWay, List.countP_cons]

/-- A handler that is let pass has waited for the lockout of its name. -/
theorem LoginState.Sound.pass (sound : s.Sound attempts u) {i now clock : Nat} (later : s.clock ≤ clock) (before : now ≤ s.clock)
    (calm : (attempts i).username = u → s.underWay attempts u = 0 ∨
      s.limiter.fails (userKey u) + s.underWay attempts u ≤ loginUserFreeFails)
    (passed : (attempts i).username = u → s.limiter.lockedUntil (userKey u) ≤ now) :
    ({ s with clock, flight := i :: s.flight }.phase i (.checking now clock)).Sound attempts u := by
  by_cases own : (attempts i).username = u
  · have more : ({ s with clock, flight := i :: s.flight }.phase i (.checking now clock)).underWay attempts u = s.underWay attempts u + 1 := by
      have count := @underWay_cons attempts s u i
      rwa [if_pos own] at count
    refine ⟨?_, fun x last => ?_, fun j w mine waiting x last => ?_, sound.chain, sound.long⟩
    · rw [more]
      rcases calm own with alone | free
      · exact .inl (by omega)
      · exact .inr (Nat.succ_le_succ free)
    · exact (sound.last x last).imp_right fun ⟨free, past⟩ => ⟨free, Nat.le_trans past later⟩
    · rw [phases_phase] at waiting
      split at waiting
      · cases waiting
        rcases sound.last x last with inForce | ⟨free, past⟩
        · have waited := Nat.le_trans inForce (passed own)
          exact ⟨Nat.le_trans waited (Nat.le_trans before later), .inl waited⟩
        · exact ⟨Nat.le_trans past later, .inr free⟩
      · exact sound.waited j w mine waiting x last
  · refine sound.frame later rfl (Nat.le_of_eq ?_) (fun j w mine waiting => ?_) (.inl rfl)
    · have count := @underWay_cons attempts s u i
      rwa [if_neg own] at count
    · rw [phases_phase] at waiting
      split at waiting
      · rename_i same
        exact absurd (same ▸ mine) own
      · exact waiting

theorem underWay_erase {i : Nat} (present : i ∈ s.flight) :
    LoginState.underWay attempts { s with flight := s.flight.erase i } u + (if (attempts i).username = u then 1 else 0) =
      s.underWay attempts u := by
  have count := (List.perm_cons_erase present).countP_eq fun j => (attempts j).username == u
  rw [List.countP_cons] at count
  simpa [LoginState.underWay] using count.symm

/-- The handler that is done waits no more; the others wait as they did. -/
theorem waiting_done {i j : Nat} {w : Nat × Nat} (waiting : ((s.phase i .done).phases j).waiting = some w) :
    j ≠ i ∧ (s.phases j).waiting = some w := by
  rw [phases_phase] at waiting
  split at waiting
  · cases waiting
  · rename_i other
    exact ⟨other, waiting⟩

theorem LoginState.Sound.success (sound : s.Sound attempts u) (timed : s.Timed) {i now begun : Nat} {good : Bool}
    (checked : s.phases i = .checked now begun good) :
    { { s with flight := s.flight.erase i }.phase i .done with limiter := s.limiter.ok (attempts i).keys }.Sound attempts u := by
  have present : i ∈ s.flight := by simp [timed.flight, checked, LoginPhase.waiting]
  have count := @underWay_erase attempts s u i present
  refine sound.frame (Nat.le_refl _) rfl ?_ (fun j w mine waiting => (waiting_done waiting).2) ?_
  · exact Nat.le_trans (Nat.le_add_right _ _) (Nat.le_of_eq count)
  · change (s.limiter.ok (attempts i).keys).lookup (userKey u) = _ ∨ (s.limiter.ok (attempts i).keys).lookup (userKey u) = none ∧ _
    rw [LoginLimiter.lookup_ok]
    split
    · rename_i cleared
      have own := userKey_mem_keys.mp cleared.1
      refine .inr ⟨rfl, fun x last => ?_⟩
      have waiting : (s.phases i).waiting = some (now, begun) := by rw [checked]; rfl
      exact Nat.le_trans (sound.waited i _ own.symm waiting x last).1 (timed.waiting i _ waiting).2
    · exact .inl rfl

/-- A failure of another name can only forget an expired lockout. -/
theorem LoginState.Sound.failOther (sound : s.Sound attempts u) (timed : s.Timed) {i now begun : Nat} {good : Bool}
    (checked : s.phases i = .checked now begun good) (other : u ≠ (attempts i).username) (x : FailedCheck) :
    { { s with flight := s.flight.erase i }.phase i .done with
      limiter := s.limiter.fail now (attempts i).keys
      failed := Function.update s.failed (attempts i).username (s.failed (attempts i).username ++ [x]) }.Sound attempts u := by
  have present : i ∈ s.flight := by simp [timed.flight, checked, LoginPhase.waiting]
  have count := @underWay_erase attempts s u i present
  have read : now ≤ s.clock := (timed.waiting i (now, begun) (by rw [checked]; rfl)).1
  refine sound.frame (Nat.le_refl _) (Function.update_of_ne other _ _) ?_ (fun j w mine waiting => (waiting_done waiting).2) ?_
  · exact Nat.le_trans (Nat.le_add_right _ _) (Nat.le_of_eq count)
  · have absent : userKey u ∉ (attempts i).keys := fun member => other (userKey_mem_keys.mp member)
    change (s.limiter.fail now _).lookup (userKey u) = _ ∨ (s.limiter.fail now _).lookup (userKey u) = none ∧ _
    rw [LoginLimiter.lookup_fail_other absent]
    rcases @LoginLimiter.lookup_prune s.limiter now (userKey u) with same | ⟨none, past⟩
    · exact .inl same
    · exact .inr ⟨none, fun y last => sound.expired last (Nat.le_trans (Nat.le_of_lt past) read)⟩

/-- A failure of the name itself: its check had waited, and what it arms is waited for. -/
theorem LoginState.Sound.failOwn {i : Nat} (sound : s.Sound attempts (attempts i).username) (timed : s.Timed) {now begun : Nat}
    {good : Bool} (checked : s.phases i = .checked now begun good) {lock : Option Nat}
    (arms : lock = lockout (userKey (attempts i).username) ((s.limiter.prune now).fails (userKey (attempts i).username) + 1)) :
    { { s with flight := s.flight.erase i }.phase i .done with
      limiter := s.limiter.fail now (attempts i).keys
      failed := Function.update s.failed (attempts i).username (s.failed (attempts i).username ++ [FailedCheck.mk now begun lock]) }.Sound
      attempts (attempts i).username := by
  have present : i ∈ s.flight := by simp [timed.flight, checked, LoginPhase.waiting]
  have count := @underWay_erase attempts s (attempts i).username i present
  have own : (s.phases i).waiting = some (now, begun) := by rw [checked]; rfl
  have waited := sound.waited i (now, begun) rfl own
  have armed : lock.isSome ↔ loginUserFreeFails < (s.limiter.prune now).fails (userKey (attempts i).username) + 1 := by
    rw [arms]
    exact lockout_isSome (isIPKey_userKey _) _
  have entry := @LoginLimiter.lookup_fail_own s.limiter now _ _ (userKey_ne_addr (attempts i).username (attempts i))
  have counted : (s.limiter.fail now (attempts i).keys).fails (userKey (attempts i).username) =
      (s.limiter.prune now).fails (userKey (attempts i).username) + 1 := by
    rw [LoginLimiter.fails, keys_eq, entry, ← LoginLimiter.fails, LoginLimiter.fails_failKey]
  have locked (d : Nat) (some : lock = some d) :
      (s.limiter.fail now (attempts i).keys).lockedUntil (userKey (attempts i).username) = now + d := by
    rw [LoginLimiter.lockedUntil, keys_eq, entry, ← LoginLimiter.lockedUntil, LoginLimiter.lockedUntil_failKey (arms ▸ some)]
  have fewer := @LoginLimiter.fails_prune_le s.limiter now (userKey (attempts i).username)
  rw [if_pos rfl] at count
  refine ⟨?_, fun x last => ?_, fun j w mine waiting x last => ?_, ?_, ?_⟩
  · change LoginState.underWay attempts { s with flight := s.flight.erase i } _ ≤ 1 ∨
      (s.limiter.fail now _).fails _ + LoginState.underWay attempts { s with flight := s.flight.erase i } _ ≤ _
    rw [counted]
    rcases sound.few with one | bound
    · exact .inl (by omega)
    · exact .inr (by omega)
  · simp only [Function.update_self, List.getLast?_concat, Option.mem_some] at last
    subst last
    refine .inl ?_
    cases is : lock with
    | none => exact Nat.zero_le _
    | some d => exact Nat.le_of_eq (locked d is).symm
  · -- Where another handler of the name waits, the failure is still free.
    simp only [Function.update_self, List.getLast?_concat, Option.mem_some] at last
    subst last
    obtain ⟨other, before⟩ := waiting_done waiting
    have both : 2 ≤ s.underWay attempts (attempts i).username := by
      have still : 0 < LoginState.underWay attempts { s with flight := s.flight.erase i } (attempts i).username := by
        refine List.countP_pos_iff.mpr ⟨j, ?_, by simpa using mine⟩
        rw [timed.nodup.mem_erase_iff]
        exact ⟨other, (timed.flight j).mpr (by rw [before]; rfl)⟩
      omega
    have unarmed : lock = none := by
      rw [← Option.not_isSome_iff_eq_none, armed]
      rcases sound.few with one | bound <;> omega
    simp [FailedCheck.lockedUntil, unarmed]
  · simp only [Function.update_self]
    refine sound.chain.append (List.isChain_singleton _) ?_
    intro a last b new
    rw [List.head?_cons, Option.mem_some] at new
    subst new
    obtain ⟨begins, arrives⟩ := waited a last
    refine ⟨begins, fun isArmed => ?_⟩
    have past := armed.mp isArmed
    exact arrives.resolve_right (by omega)
  · intro x member d is
    simp only [Function.update_self, List.mem_append, List.mem_singleton] at member
    rcases member with old | rfl
    · exact sound.long x old d is
    · exact lockout_base (arms.symm.trans is)

end Name

theorem LoginState.Sound.step {label : LoginLabel} (sound : ∀ u, s.Sound attempts u) (timed : s.Timed) (calm : CalmLogin attempts s label)
    (stepped : s.step attempts label = some t) (u : List Char) : t.Sound attempts u := by
  cases label with
  | arrive i now =>
    simp only [LoginState.step] at stepped
    split at stepped <;> cases stepped
    rename_i allowed
    exact (sound u).arrive allowed.2 rfl
  | retryAfter i now =>
    simp only [LoginState.step] at stepped
    split at stepped
    · rename_i read arrived
      split at stepped
      · rename_i later
        split at stepped
        · cases stepped
          exact (sound u).arrive later rfl
        · rename_i passes
          cases stepped
          have expired := LoginLimiter.retryAfter_eq_zero.mp (Nat.eq_zero_of_not_pos passes)
          refine (sound u).pass later (timed.arrived i read arrived) (fun own => own ▸ calm) fun own => ?_
          exact expired (userKey u) (userKey_mem_keys.mpr own.symm)
      · cases stepped
    · cases stepped
  | checkPassword i good =>
    simp only [LoginState.step] at stepped
    split at stepped <;> cases stepped
    rename_i read begun checking
    refine (sound u).frame (Nat.le_refl _) rfl (Nat.le_refl _) (fun j w own waiting => ?_) (.inl rfl)
    rw [phases_phase] at waiting
    split at waiting
    · rename_i same
      rw [same, checking]
      exact waiting
    · exact waiting
  | settle i =>
    simp only [LoginState.step] at stepped
    split at stepped
    · rename_i read begun good checked
      split at stepped <;> cases stepped
      · exact (sound u).success timed checked
      · by_cases own : u = (attempts i).username
        · subst own
          exact (sound _).failOwn timed checked rfl
        · exact (sound u).failOther timed checked own _
    · cases stepped

/-- Five handlers pass the limiter before any of them has failed. -/
def parallel : List LoginLabel :=
  (List.range 5).map (.arrive · 1) ++ (List.range 5).map (.retryAfter · 1) ++ (List.range 5).map (.checkPassword · false) ++
    (List.range 5).map .settle

end Cronova.Api
