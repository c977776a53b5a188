import Cronova.Parser.Limits
import Cronova.Scheduler.Run
import Mathlib.Algebra.Order.Ring.Int
import Mathlib.Tactic.Positivity
import Mathlib.Tactic.Ring

/-! The wait before a retry, in 64-bit nanoseconds.

`retryDelay` doubles the delay at most 20 times and saturates a product that has become smaller than
the delay. So it misses the documented wait where the maximum lies above 2^20 delays, and where
a product has wrapped around to between the delay and the maximum.
-/

set_option autoImplicit false

namespace Cronova.Scheduler

open Model Cronova.Parser
open Calendar (Time)

/-! ### Wrapped durations -/

theorem duration64_of_fits {x : Int} (low : -2 ^ 63 ≤ x) (high : x < 2 ^ 63) : duration64 x = x := by
  unfold duration64
  omega

/-- A duration is wrapped by a multiple of the word. -/
theorem duration64_sub {x k : Int} (low : -2 ^ 63 ≤ x - k * 2 ^ 64) (high : x - k * 2 ^ 64 < 2 ^ 63) :
    duration64 x = x - k * 2 ^ 64 := by
  unfold duration64
  omega

theorem exists_duration64 (x : Int) : ∃ k : Int, duration64 x = x - k * 2 ^ 64 ∧ -2 ^ 63 ≤ duration64 x ∧ duration64 x < 2 ^ 63 := by
  refine ⟨(x + 2 ^ 63) / 2 ^ 64, ?_, ?_, ?_⟩
  · unfold duration64
    omega
  · unfold duration64
    omega
  · unfold duration64
    omega

/-! ### The documented wait -/

/-- The settings of a parsed task that decide its retries. -/
def retrying (task : ParsedTask) : Task :=
  { task.node with
    retries := task.retries
    retryDelay := task.retryDelay
    exponential := task.retryBackoff == "exponential"
    retryDelayMax := task.retryDelayMax }

/-- `retry_delay_max`, or 24 hours when none is set, in seconds. -/
def delayCap (t : Task) : Int := if t.retryDelayMax = 0 then 24 * 3600 else t.retryDelayMax

/-- The documented wait after a number of tries. -/
def backoff (t : Task) (tries : Int) : Int := min (t.retryDelay * 2 ^ (tries - 1).toNat) (delayCap t) * Calendar.second

/-- The delays for which the arithmetic is exact: 20 doublings reach the maximum, and no product lies above a
multiple of the word by at least the delay and less than the maximum. -/
structure Exact (t : Task) : Prop where
  reached : delayCap t ≤ t.retryDelay * 2 ^ 20
  unwrapped : ∀ shift : Nat, shift ≤ 20 → ∀ k : Int, 1 ≤ k →
    ¬ (k * 2 ^ 64 + t.retryDelay * Calendar.second ≤ t.retryDelay * Calendar.second * 2 ^ shift ∧
      t.retryDelay * Calendar.second * 2 ^ shift < k * 2 ^ 64 + delayCap t * Calendar.second)

/-- What the parser demands of the retry settings of an exponential task. -/
structure Bounded (t : Task) : Prop where
  exponential : t.exponential = true
  delay : Cronova.Parser.Within (365 * 24 * 3600) t.retryDelay
  delayMax : Cronova.Parser.Within (30 * 24 * 3600) t.retryDelayMax

section Waits

variable {t : Task}

theorem Bounded.cap (bounded : Bounded t) : 1 ≤ delayCap t ∧ delayCap t ≤ 30 * 24 * 3600 := by
  have within := bounded.delayMax
  unfold delayCap
  split <;> omega

/-- How many times the delay is doubled. -/
def doublings (tries : Int) : Nat := (min 20 (max 0 (tries - 1))).toNat

/-- The wait is the wrapped product, saturated below the delay, up to the maximum. -/
theorem retryDelay_eq (bounded : Bounded t) (positive : 0 < t.retryDelay) (tries : Int) :
    retryDelay t tries =
      if duration64 (t.retryDelay * Calendar.second * 2 ^ doublings tries) < t.retryDelay * Calendar.second then delayCap t * Calendar.second
      else min (duration64 (t.retryDelay * Calendar.second * 2 ^ doublings tries)) (delayCap t * Calendar.second) := by
  have delay := bounded.delay
  have delayMax := bounded.delayMax
  have base : duration64 (t.retryDelay * Calendar.second) = t.retryDelay * Calendar.second :=
    duration64_of_fits (by unfold Calendar.second; omega) (by unfold Calendar.second; omega)
  have top : duration64 (t.retryDelayMax * Calendar.second) = t.retryDelayMax * Calendar.second :=
    duration64_of_fits (by unfold Calendar.second; omega) (by unfold Calendar.second; omega)
  have given : ¬ ((!t.exponential) = true ∨ t.retryDelay * Calendar.second ≤ 0) := by
    rw [bounded.exponential]
    simp only [Calendar.second, Bool.not_true, Bool.false_eq_true, false_or]
    omega
  unfold retryDelay
  simp only [base, top]
  rw [if_neg given]
  unfold doublings
  generalize duration64 (t.retryDelay * Calendar.second * 2 ^ (min 20 (max 0 (tries - 1))).toNat) = grown
  unfold delayCap Calendar.second
  -- the saturated product is above every maximum
  split <;> split <;> split <;> omega

/-- The doublings that are left out come after the maximum is reached. -/
theorem min_doublings (positive : 0 ≤ t.retryDelay) (reached : delayCap t ≤ t.retryDelay * 2 ^ 20) (tries : Int) :
    min (t.retryDelay * 2 ^ doublings tries) (delayCap t) = min (t.retryDelay * 2 ^ (tries - 1).toNat) (delayCap t) := by
  by_cases few : tries ≤ 21
  · have same : doublings tries = (tries - 1).toNat := by
      unfold doublings
      omega
    rw [same]
  · have most : doublings tries = 20 := by
      unfold doublings
      omega
    have grows : t.retryDelay * 2 ^ 20 ≤ t.retryDelay * 2 ^ (tries - 1).toNat := by
      apply mul_le_mul_of_nonneg_left _ positive
      exact pow_le_pow_right₀ (by decide) (by omega)
    rw [most]
    omega

theorem retryDelay_exact (bounded : Bounded t) (positive : 0 < t.retryDelay) (precise : Exact t) (tries : Int) :
    retryDelay t tries = backoff t tries := by
  obtain ⟨k, wrapped, low, high⟩ := exists_duration64 (t.retryDelay * Calendar.second * 2 ^ doublings tries)
  have few : doublings tries ≤ 20 := by
    unfold doublings
    omega
  have apart := precise.unwrapped (doublings tries) few k
  have cap := bounded.cap
  have grown : t.retryDelay ≤ t.retryDelay * 2 ^ doublings tries :=
    le_mul_of_one_le_right positive.le (one_le_pow₀ (by decide))
  have product : t.retryDelay * Calendar.second * 2 ^ doublings tries = t.retryDelay * 2 ^ doublings tries * Calendar.second := by ring
  rw [retryDelay_eq bounded positive, backoff, ← min_doublings positive.le precise.reached]
  rw [product] at wrapped low high apart ⊢
  generalize t.retryDelay * 2 ^ doublings tries = p at *
  generalize duration64 (p * Calendar.second) = w at *
  unfold Calendar.second at *
  -- without a wrap the product stands, and a wrapped one is saturated or at the maximum
  split <;> omega

/-- Where 20 doublings stay below the maximum, the wait stops short of it. -/
theorem reached_of_waits (bounded : Bounded t) (positive : 0 < t.retryDelay) (waits : retryDelay t 22 = backoff t 22) :
    delayCap t ≤ t.retryDelay * 2 ^ 20 := by
  by_contra short
  have cap := bounded.cap
  have twenty : doublings 22 = 20 := by decide
  have fits : duration64 (t.retryDelay * Calendar.second * 2 ^ 20) = t.retryDelay * Calendar.second * 2 ^ 20 :=
    duration64_of_fits (by unfold Calendar.second; omega) (by unfold Calendar.second; omega)
  rw [retryDelay_eq bounded positive, twenty, fits, backoff] at waits
  have next : ((22 : Int) - 1).toNat = 21 := by decide
  rw [next] at waits
  unfold Calendar.second at waits
  split at waits <;> omega

theorem unwrapped_of_waits (bounded : Bounded t) (positive : 0 < t.retryDelay) {shift : Nat} (few : shift ≤ 20)
    (waits : retryDelay t (shift + 1) = backoff t (shift + 1)) {k : Int} (around : 1 ≤ k) :
    ¬ (k * 2 ^ 64 + t.retryDelay * Calendar.second ≤ t.retryDelay * Calendar.second * 2 ^ shift ∧
      t.retryDelay * Calendar.second * 2 ^ shift < k * 2 ^ 64 + delayCap t * Calendar.second) := by
  rintro ⟨above, below⟩
  have cap := bounded.cap
  have shifts : doublings (shift + 1) = shift := by
    unfold doublings
    omega
  have next : ((shift : Int) + 1 - 1).toNat = shift := by omega
  have wrapped : duration64 (t.retryDelay * Calendar.second * 2 ^ shift) = t.retryDelay * Calendar.second * 2 ^ shift - k * 2 ^ 64 := by
    apply duration64_sub
    · unfold Calendar.second at *
      omega
    · unfold Calendar.second at *
      omega
  rw [retryDelay_eq bounded positive, shifts, wrapped, backoff, next] at waits
  have product : t.retryDelay * Calendar.second * 2 ^ shift = t.retryDelay * 2 ^ shift * Calendar.second := by ring
  rw [product] at above below waits
  generalize t.retryDelay * 2 ^ shift = p at *
  unfold Calendar.second at *
  split at waits <;> omega

theorem retryDelay_zero (bounded : Bounded t) (zero : t.retryDelay = 0) (tries : Int) : retryDelay t tries = backoff t tries := by
  have cap := bounded.cap
  have base : duration64 (t.retryDelay * Calendar.second) = 0 := by
    rw [zero]
    rfl
  have none_given : (!t.exponential) = true ∨ (0 : Int) ≤ 0 := .inr (le_refl 0)
  unfold retryDelay backoff
  simp only [base]
  rw [if_pos none_given, zero, zero_mul]
  have none_left : min 0 (delayCap t) = 0 := by omega
  rw [none_left, zero_mul]

/-- The documented wait is never negative and never decreases. -/
theorem backoff_mono (bounded : Bounded t) {n m : Int} (later : n ≤ m) : 0 ≤ backoff t n ∧ backoff t n ≤ backoff t m := by
  have cap := bounded.cap
  have delay := bounded.delay
  have positive : 0 ≤ t.retryDelay * 2 ^ (n - 1).toNat := mul_nonneg delay.1 (by positivity)
  have grows : t.retryDelay * 2 ^ (n - 1).toNat ≤ t.retryDelay * 2 ^ (m - 1).toNat := by
    apply mul_le_mul_of_nonneg_left _ delay.1
    exact pow_le_pow_right₀ (by decide) (by omega)
  unfold backoff Calendar.second
  omega

theorem waits_iff (bounded : Bounded t) :
    (∀ n, 1 ≤ n → retryDelay t n = backoff t n) ↔ t.retryDelay = 0 ∨ Exact t := by
  constructor
  · intro waits
    by_cases zero : t.retryDelay = 0
    · exact .inl zero
    · have positive : 0 < t.retryDelay := lt_of_le_of_ne bounded.delay.1 (Ne.symm zero)
      refine .inr ⟨reached_of_waits bounded positive (waits 22 (by decide)), ?_⟩
      intro shift few k around
      exact unwrapped_of_waits bounded positive few (waits (shift + 1) (by omega)) around
  · rintro (zero | precise) n _
    · exact retryDelay_zero bounded zero n
    · by_cases zero : t.retryDelay = 0
      · exact retryDelay_zero bounded zero n
      · exact retryDelay_exact bounded (lt_of_le_of_ne bounded.delay.1 (Ne.symm zero)) precise n

end Waits

/-! ### Parsed tasks -/

section Parsed

variable {lib : Library} {now : Time} {raw : String} {d : ParsedDAG} {task : ParsedTask}

theorem bounded_of_parse (ok : parse lib now raw = .ok d) (member : task ∈ d.tasks) (exponential : task.retryBackoff = "exponential") :
    Bounded (retrying task) := by
  obtain ⟨y, expanded, _, builds⟩ := parse_builds ok
  obtain ⟨t, _, seen, total, parsed⟩ := parseTasks_origin builds.tasks member
  have limits := parseTask_limits builds.header parsed
  obtain ⟨_, _, _, _, retries, _, _, same⟩ := parseTask_eq_ok.mp parsed
  simp only [checkRetries, Checks.bind_eq_ok, Checks.require_eq_ok, exists_and_left, exists_const] at retries
  obtain ⟨_, _, positiveMax, ⟨_, delayMax⟩, _⟩ := retries
  have max : task.retryDelayMax = t.retryDelayMax := by rw [same]; rfl
  refine ⟨by simp [retrying, exponential], limits.retryDelay, ?_⟩
  change Cronova.Parser.Within (30 * 24 * 3600) task.retryDelayMax
  rw [max]
  exact ⟨positiveMax, delayMax⟩

/-- The wait of an accepted task is the documented one, and so not negative and never less after more tries, exactly
where the arithmetic on its delays is exact. -/
theorem retryDelay_backoff (lib : Library) (now : Time) (raw : String) (d : ParsedDAG) (ok : parse lib now raw = .ok d)
    (task : ParsedTask) (member : task ∈ d.tasks) (exponential : task.retryBackoff = "exponential") :
    ((∀ n, 1 ≤ n → retryDelay (retrying task) n = backoff (retrying task) n) ∧
      (∀ n, 1 ≤ n → 0 ≤ retryDelay (retrying task) n) ∧
        ∀ n m, 1 ≤ n → n ≤ m → retryDelay (retrying task) n ≤ retryDelay (retrying task) m) ↔
      task.retryDelay = 0 ∨ Exact (retrying task) := by
  have bounded := bounded_of_parse ok member exponential
  constructor
  · rintro ⟨waits, _, _⟩
    exact (waits_iff bounded).mp waits
  · intro precise
    have waits := (waits_iff bounded).mpr precise
    refine ⟨waits, ?_, ?_⟩
    · intro n first
      rw [waits n first]
      exact (backoff_mono bounded (le_refl n)).1
    · intro n m first later
      rw [waits n first, waits m (le_trans first later)]
      exact (backoff_mono bounded later).2

end Parsed

/-! ### Two tasks -/

def retriesText : String :=
  "dag_id: imports\ntasks:\n- id: fetch\n  command: ./fetch\n  retries: 3\n  retry_delay: 30\n  retry_backoff: exponential\n" ++
    "- id: settle\n  command: ./settle\n  retries: 30\n  retry_delay: 17593\n  retry_backoff: exponential\n  retry_delay_max: 2592000\n"

def fetch : TaskYAML where
  id := "fetch"
  command := "./fetch"
  retries := some 3
  retryDelay := some 30
  retryBackoff := "exponential"

/-- Its maximum of 30 days is reached by the 9th retry. -/
def settle : TaskYAML where
  id := "settle"
  command := "./settle"
  retries := some 30
  retryDelay := some 17593
  retryBackoff := "exponential"
  retryDelayMax := 2592000

def retriesYAML : DagYAML where
  dagID := "imports"
  tasks := [fetch, settle]

def retriesLibrary : Library where
  decode text := if text = retriesText then some retriesYAML else none
  loadLocation _ := false
  parseSchedule _ _ := false
  parseDate _ _ := none
  validOffset _ := false
  fill _ _ text := text

def fetchTask : ParsedTask := taskOf retriesYAML fetch none none

def settleTask : ParsedTask := taskOf retriesYAML settle none none

def retriesDAG : ParsedDAG := dagOf retriesText retriesYAML 0 [] [] {} [fetchTask, settleTask]

/-- The wait before the 20th retry is 30 days, and before the 21st it is less than ten. -/
theorem settle_wraps : parse retriesLibrary 0 retriesText = .ok retriesDAG ∧ settleTask ∈ retriesDAG.tasks ∧
    settleTask.retryBackoff = "exponential" ∧ retryDelay (retrying settleTask) 20 = 2592000 * Calendar.second ∧
      retryDelay (retrying settleTask) 21 = 853494290448384 ∧ backoff (retrying settleTask) 21 = 2592000 * Calendar.second := by
  decide +kernel

theorem fetch_waits : parse retriesLibrary 0 retriesText = .ok retriesDAG ∧
    (∀ n, 1 ≤ n → retryDelay (retrying fetchTask) n = backoff (retrying fetchTask) n) ∧
      (∀ n, 1 ≤ n → 0 ≤ retryDelay (retrying fetchTask) n) ∧
        ∀ n m, 1 ≤ n → n ≤ m → retryDelay (retrying fetchTask) n ≤ retryDelay (retrying fetchTask) m := by
  have accepted : parse retriesLibrary 0 retriesText = .ok retriesDAG := by decide +kernel
  have precise : Exact (retrying fetchTask) := by
    refine ⟨by decide +kernel, ?_⟩
    rintro shift few k around ⟨above, _⟩
    have small : (2 : Int) ^ shift ≤ 2 ^ 20 := pow_le_pow_right₀ (by decide) few
    have delay : (retrying fetchTask).retryDelay = 30 := by decide +kernel
    rw [delay] at above
    unfold Calendar.second at above
    omega
  exact ⟨accepted, (retryDelay_backoff retriesLibrary 0 retriesText retriesDAG accepted fetchTask (by decide +kernel)
    (by decide +kernel)).mpr (.inr precise)⟩

end Cronova.Scheduler
