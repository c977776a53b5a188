import Cronova.Table
import Mathlib.Algebra.Group.Nat.Defs

/-! The limiter of failed logins. Times are in nanoseconds; the zero time is before every clock. -/

set_option autoImplicit false

namespace Cronova.Api

structure LoginFails where
  key : List Char
  fails : Nat := 0
  lockedUntil : Nat := 0
  deriving DecidableEq, Repr

abbrev LoginLimiter := Table LoginFails.key (· ≠ ·)

def second : Nat := 1000000000

def loginUserFreeFails : Nat := 2
def loginUserLockMax : Nat := 30 * second
def loginIPFreeFails : Nat := 10
def loginIPLockMax : Nat := 300 * second
def loginLockBase : Nat := 2 * second
def loginLimiterSize : Nat := 10000

def isIPKey (key : List Char) : Bool := "ip:".toList.isPrefixOf key

def keyParams (key : List Char) : Nat × Nat :=
  if isIPKey key then (loginIPFreeFails, loginIPLockMax) else (loginUserFreeFails, loginUserLockMax)

/-- The lockout that a key's failure of this number arms. -/
def lockout (key : List Char) (fails : Nat) : Option Nat :=
  let (free, cap) := keyParams key
  let above := fails - free
  if 0 < above then some (min (loginLockBase * 2 ^ (min above 9 - 1)) cap) else none

namespace LoginLimiter

/-- The longest of the waits for the keys. -/
def retryAfter (l : LoginLimiter) (now : Nat) : List (List Char) → Nat
  | [] => 0
  | k :: keys =>
    match l.lookup k with
    | none => retryAfter l now keys
    | some f => max (f.lockedUntil - now) (retryAfter l now keys)

/-- Expired entries go when there are too many. -/
def prune (l : LoginLimiter) (now : Nat) : LoginLimiter :=
  if loginLimiterSize < l.rows.length then l.delete fun f => f.lockedUntil < now else l

def failKey (now : Nat) (l : LoginLimiter) (k : List Char) : LoginLimiter :=
  let f := (l.lookup k).getD { key := k }
  match lockout k (f.fails + 1) with
  | some lock => l.put { key := k, fails := f.fails + 1, lockedUntil := now + lock }
  | none => l.put { key := k, fails := f.fails + 1, lockedUntil := f.lockedUntil }

def fail (l : LoginLimiter) (now : Nat) (keys : List (List Char)) : LoginLimiter := keys.foldl (failKey now) (l.prune now)

/-- A success clears the keys of names, not those of addresses. -/
def ok (l : LoginLimiter) (keys : List (List Char)) : LoginLimiter :=
  keys.foldl (fun l k => if isIPKey k then l else l.delete (·.key == k)) l

def fails (l : LoginLimiter) (k : List Char) : Nat := ((l.lookup k).map (·.fails)).getD 0

def lockedUntil (l : LoginLimiter) (k : List Char) : Nat := ((l.lookup k).map (·.lockedUntil)).getD 0

variable {l : LoginLimiter} {now : Nat} {k : List Char} {keys : List (List Char)}

theorem retryAfter_eq_zero : l.retryAfter now keys = 0 ↔ ∀ k ∈ keys, l.lockedUntil k ≤ now := by
  induction keys with
  | nil => simp [retryAfter]
  | cons k keys ih =>
    unfold retryAfter lockedUntil
    cases found : l.lookup k with
    | none =>
      simp only [ih, List.forall_mem_cons, found, Option.map_none, Option.getD_none, Nat.zero_le, true_and]
      rfl
    | some f =>
      simp only [Nat.max_eq_zero_iff, ih, List.forall_mem_cons, found, Option.map_some, Option.getD_some, Nat.sub_eq_zero_iff_le]
      rfl

/-- Pruning forgets only what has expired. -/
theorem lookup_prune : (l.prune now).lookup k = l.lookup k ∨ (l.prune now).lookup k = none ∧ l.lockedUntil k < now := by
  unfold prune
  split
  · rw [Table.lookup_delete]
    cases found : l.lookup k with
    | none => exact .inl rfl
    | some f =>
      by_cases expired : f.lockedUntil < now
      · exact .inr ⟨by simp [expired], by simp [lockedUntil, found, expired]⟩
      · exact .inl (by simp [expired])
  · exact .inl rfl

theorem fails_prune_le : (l.prune now).fails k ≤ l.fails k := by
  rcases @lookup_prune l now k with same | ⟨none, -⟩
  · simp [fails, same]
  · simp [fails, none]

theorem lookup_failKey {other : List Char} (differ : k ≠ other) : (failKey now l other).lookup k = l.lookup k := by
  unfold failKey
  dsimp only
  split <;> rw [Table.lookup_put, if_neg differ]

theorem fails_failKey : (failKey now l k).fails k = l.fails k + 1 := by
  have count : ((l.lookup k).getD { key := k }).fails = l.fails k := by
    unfold fails
    cases l.lookup k <;> rfl
  unfold failKey
  dsimp only
  split <;> rw [fails, Table.lookup_put, if_pos rfl, Option.map_some, Option.getD_some, count]

theorem lockedUntil_failKey {lock : Nat} (armed : lockout k (l.fails k + 1) = some lock) :
    (failKey now l k).lockedUntil k = now + lock := by
  have count : ((l.lookup k).getD { key := k }).fails = l.fails k := by
    unfold fails
    cases l.lookup k <;> rfl
  unfold failKey
  dsimp only
  rw [count, armed]
  dsimp only
  rw [lockedUntil, Table.lookup_put, if_pos rfl]
  rfl

/-- A failure of other keys can only forget a key. -/
theorem lookup_fail_other (absent : k ∉ keys) : (l.fail now keys).lookup k = (l.prune now).lookup k := by
  unfold fail
  generalize l.prune now = p
  induction keys generalizing p with
  | nil => rfl
  | cons other keys ih =>
    rw [List.foldl_cons, ih (fun member => absent (List.mem_cons_of_mem _ member))]
    exact lookup_failKey fun same => absent (same ▸ List.mem_cons_self)

/-- A failure counts for a key that it names once and first. -/
theorem lookup_fail_own (absent : k ∉ keys) : (l.fail now (k :: keys)).lookup k = (failKey now (l.prune now) k).lookup k := by
  unfold fail
  rw [List.foldl_cons]
  generalize failKey now (l.prune now) k = p
  induction keys generalizing p with
  | nil => rfl
  | cons other keys ih =>
    rw [List.foldl_cons, ih (fun member => absent (List.mem_cons_of_mem _ member))]
    exact lookup_failKey fun same => absent (same ▸ List.mem_cons_self)

theorem lookup_ok : (l.ok keys).lookup k = if k ∈ keys ∧ isIPKey k = false then none else l.lookup k := by
  unfold ok
  induction keys generalizing l with
  | nil => simp
  | cons other keys ih =>
    rw [List.foldl_cons, ih]
    by_cases later : k ∈ keys ∧ isIPKey k = false
    · rw [if_pos later, if_pos ⟨List.mem_cons_of_mem _ later.1, later.2⟩]
    · rw [if_neg later]
      by_cases address : isIPKey other = true
      · rw [if_pos address, if_neg]
        rintro ⟨member, name⟩
        rcases List.mem_cons.mp member with rfl | member
        · rw [address] at name
          cases name
        · exact later ⟨member, name⟩
      · rw [if_neg address, Table.lookup_delete]
        by_cases own : k = other
        · subst own
          rw [if_pos ⟨List.mem_cons_self, by simpa using address⟩]
          cases found : l.lookup k with
          | none => rfl
          | some f => simp [Table.key_of_lookup found]
        · rw [if_neg]
          · cases found : l.lookup k with
            | none => rfl
            | some f => simp [Table.key_of_lookup found, own]
          · rintro ⟨member, name⟩
            rcases List.mem_cons.mp member with same | member
            · exact own same
            · exact later ⟨member, name⟩

end LoginLimiter

/-- A lockout lasts at least its base. -/
theorem lockout_base {key : List Char} {fails lock : Nat} (armed : lockout key fails = some lock) : loginLockBase ≤ lock := by
  unfold lockout at armed
  dsimp only at armed
  split at armed <;> cases armed
  refine Nat.le_min.mpr ⟨Nat.le_mul_of_pos_right _ (Nat.pow_pos (by decide)), ?_⟩
  unfold keyParams
  split <;> decide

/-- A key of a name is locked from the third failure on. -/
theorem lockout_isSome {key : List Char} (name : isIPKey key = false) (fails : Nat) :
    (lockout key fails).isSome ↔ loginUserFreeFails < fails := by
  simp [lockout, keyParams, name, Nat.sub_pos_iff_lt]

end Cronova.Api
