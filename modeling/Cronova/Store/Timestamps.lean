import Cronova.Store.Tables
import Cronova.Text.Decimal
import Mathlib.Tactic.IntervalCases
import Mathlib.Tactic.NormNum

/-! The order of the stored timestamps.

The columns `logical_date`, `finished_at` and `expires_at` hold the text of `fmtTime`, and
the queries compare that text. It is compared here with the order of the instants.
-/

set_option autoImplicit false

namespace Cronova.Calendar

open Text

/-! ### Dates -/

/-- The days before a year of an era. -/
def daysBefore (yoe : Nat) : Nat := 365 * yoe + yoe / 4 - yoe / 100

def yearOfEra (doe : Nat) : Nat := (doe - doe / 1460 + doe / 36524 - doe / 146096) / 365

theorem yearOfEra_succ {d : Nat} (inside : d + 1 < 146097) : yearOfEra d ≤ yearOfEra (d + 1) := by
  by_cases last : d + 1 = 146096
  · obtain rfl : d = 146095 := by omega
    decide
  · have small : d / 146096 = 0 ∧ (d + 1) / 146096 = 0 := by omega
    unfold yearOfEra
    apply Nat.div_le_div_right
    have : (d + 1) / 1460 ≤ d / 1460 + 1 := by omega
    have : d / 36524 ≤ (d + 1) / 36524 := by omega
    omega

theorem yearOfEra_mono {d e : Nat} (inside : e < 146097) (le : d ≤ e) : yearOfEra d ≤ yearOfEra e := by
  induction e, le using Nat.le_induction with
  | base => exact Nat.le_refl _
  | succ e _ ih => exact (ih (by omega)).trans (yearOfEra_succ inside)

/-- The first and the last day of each year of an era. -/
theorem yearOfEra_ends : ∀ y < 400, yearOfEra (daysBefore y) = y ∧ yearOfEra (daysBefore (y + 1) - 1) = y := by
  decide +kernel

theorem yearOfEra_lt {doe : Nat} (inside : doe < 146097) : yearOfEra doe < 400 := by
  have : yearOfEra doe ≤ yearOfEra 146096 := yearOfEra_mono (by omega) (by omega)
  have : yearOfEra 146096 = 399 := by decide
  omega

theorem yearOfEra_spec {doe : Nat} (inside : doe < 146097) :
    daysBefore (yearOfEra doe) ≤ doe ∧ doe ≤ daysBefore (yearOfEra doe) + 365 := by
  have bound := yearOfEra_lt inside
  generalize year : yearOfEra doe = y at bound ⊢
  constructor
  · by_contra early
    cases y with
    | zero => simp [daysBefore] at early
    | succ y =>
      have size : daysBefore (y + 1) - 1 < 146097 := by unfold daysBefore; omega
      have := yearOfEra_mono size (show doe ≤ daysBefore (y + 1) - 1 by omega)
      rw [(yearOfEra_ends y (by omega)).2] at this
      omega
  · by_contra late
    have next : daysBefore (y + 1) ≤ doe := by unfold daysBefore at late ⊢; omega
    by_cases last : y + 1 < 400
    · have := yearOfEra_mono inside next
      rw [(yearOfEra_ends (y + 1) last).1] at this
      omega
    · unfold daysBefore at late
      omega

/-- The date of a day counted from a first of March. -/
def marchDate (year : Int) (doy : Nat) : Date :=
  let mp := (5 * doy + 2) / 153
  let month := if mp < 10 then mp + 3 else mp - 9
  { year := year + (if month ≤ 2 then 1 else 0)
    month
    day := doy - (153 * mp + 2) / 5 + 1 }

def Date.Before (a b : Date) : Prop :=
  a.year < b.year ∨ a.year = b.year ∧ (a.month < b.month ∨ a.month = b.month ∧ a.day < b.day)

theorem marchDate_before {y z : Int} {d e : Nat} (left : d ≤ 365) (right : e ≤ 365) (less : y < z ∨ y = z ∧ d < e) :
    (marchDate y d).Before (marchDate z e) := by
  unfold marchDate Date.Before
  dsimp only
  rcases less with earlier | ⟨rfl, earlier⟩
  · split <;> split <;> split <;> split <;> omega
  · have : (5 * d + 2) / 153 ≤ (5 * e + 2) / 153 := by omega
    split <;> split <;> split <;> split <;> omega

/-- The year that starts in March and the day in it. -/
theorem civil_eq (days : Int) : ∃ doe : Nat, doe < 146097 ∧ (doe : Int) = (days + 719468) % 146097 ∧
    civil days = marchDate ((days + 719468) / 146097 * 400 + yearOfEra doe) (doe - daysBefore (yearOfEra doe)) := by
  refine ⟨((days + 719468) % 146097).toNat, by omega, by omega, rfl⟩

theorem civil_before {d e : Int} (less : d < e) : (civil d).Before (civil e) := by
  obtain ⟨a, small, left, eq⟩ := civil_eq d
  obtain ⟨b, small', right, eq'⟩ := civil_eq e
  have spec := yearOfEra_spec small
  have spec' := yearOfEra_spec small'
  rw [eq, eq']
  apply marchDate_before (by omega) (by omega)
  have first := yearOfEra_lt small
  by_cases era : (d + 719468) / 146097 < (e + 719468) / 146097
  · exact .inl (by omega)
  · have same : (d + 719468) / 146097 = (e + 719468) / 146097 := by omega
    have days : a < b := by omega
    have years := yearOfEra_mono small' days.le
    rcases years.lt_or_eq with earlier | equal
    · exact .inl (by omega)
    · rw [same, equal]
      rw [equal] at spec
      exact .inr ⟨rfl, by omega⟩

theorem civil_bounds (days : Int) : (civil days).month < 100 ∧ (civil days).day < 100 := by
  obtain ⟨doe, small, _, eq⟩ := civil_eq days
  have spec := yearOfEra_spec small
  rw [eq]
  unfold marchDate
  dsimp only
  constructor
  · split <;> omega
  · omega

/-! ### Texts -/

theorem toList_pad (least n : Nat) : (pad least n).toList = digits (max least (width n)) n := by
  have text : (toString n).toList = Nat.toDigits 10 n := Nat.toList_repr
  have length : (toString n).length = width n := by rw [← String.length_toList, text]; rfl
  rw [← padded_eq, ← text, ← length]
  simp only [pad, String.toList_append, String.toList_ofList]

theorem toList_pad_two {n : Nat} (small : n < 100) : (pad 2 n).toList = digits 2 n := by
  have : width n ≤ 2 := (width_le_iff (by omega)).mpr small
  rw [toList_pad, Nat.max_eq_left this]

/-- The number of digits in which a year is written. -/
def yearWidth (year : Int) : Nat := max 4 (width year.natAbs)

theorem lt_pow_yearWidth (year : Int) : year.natAbs < 10 ^ yearWidth year :=
  (lt_pow_width _).trans_le (Nat.pow_le_pow_right (by omega) (Nat.le_max_right _ _))

theorem yearWidth_mono {y z : Int} (le : y.natAbs ≤ z.natAbs) : yearWidth y ≤ yearWidth z := by
  have : width y.natAbs ≤ width z.natAbs := (width_le_iff (width_pos _)).mpr (le.trans_lt (lt_pow_width _))
  unfold yearWidth
  omega

theorem toList_padYear (year : Int) :
    (padYear year).toList = (if year < 0 then ['-'] else []) ++ digits (yearWidth year) year.natAbs := by
  unfold padYear
  split
  · rw [String.toList_append, toList_pad]
    rfl
  · rw [toList_pad]
    rfl

/-- Two years, the first one smaller, whose texts are in the same order. -/
def YearsSort (y z : Int) : Prop :=
  if y < 0 then 0 ≤ z ∨ y.natAbs / 10 ^ (yearWidth y - yearWidth z) < z.natAbs
  else y.natAbs ≤ z.natAbs / 10 ^ (yearWidth z - yearWidth y)

theorem padYear_lt_iff {y z : Int} (less : y < z) (u v : List Char) :
    (padYear y).toList ++ '-' :: u < (padYear z).toList ++ '-' :: v ↔ YearsSort y z := by
  have below : ∀ c, '0' ≤ c → '-' < c := fun c digit => lt_of_lt_of_le (by decide) digit
  rw [toList_padYear, toList_padYear]
  unfold YearsSort
  by_cases negative : y < 0
  · rw [if_pos negative, if_pos negative]
    by_cases signs : 0 ≤ z
    · rw [if_neg (by omega)]
      have nonempty : digits (yearWidth z) z.natAbs ≠ [] := by
        intro empty
        have := congrArg List.length empty
        simp [yearWidth] at this
      obtain ⟨d, ds, eq⟩ := List.exists_cons_of_ne_nil nonempty
      have digit : d ∈ digits (yearWidth z) z.natAbs := by simp [eq]
      simp [eq, signs, List.cons_lt_cons_iff, below d (mem_digits digit).1]
    · rw [if_pos (by omega)]
      obtain ⟨extra, longer⟩ := Nat.exists_eq_add_of_le (yearWidth_mono (y := z) (z := y) (by omega))
      have bound := lt_pow_yearWidth y
      rw [longer] at bound
      simp only [List.cons_append, List.nil_append, List.cons_lt_cons_iff, lt_irrefl, true_and, false_or]
      rw [longer, longer_lt_numeral below bound (lt_pow_yearWidth z), Nat.add_sub_cancel_left]
      constructor
      · rintro (less | ⟨same, rfl, _⟩)
        · exact .inr less
        · simp at same
          omega
      · rintro (wrong | less)
        · omega
        · exact .inl less
  · rw [if_neg negative, if_neg negative, if_neg (by omega)]
    obtain ⟨extra, longer⟩ := Nat.exists_eq_add_of_le (yearWidth_mono (y := y) (z := z) (by omega))
    have bound := lt_pow_yearWidth z
    rw [longer] at bound
    simp only [List.nil_append]
    rw [longer, numeral_lt_longer below (lt_pow_yearWidth y) bound, Nat.add_sub_cancel_left]
    constructor
    · rintro (less | ⟨same, _⟩)
      · exact less.le
      · exact same.le
    · intro le
      rcases le.lt_or_eq with less | same
      · exact .inl less
      · refine .inr ⟨same, .inl (Nat.pos_of_ne_zero ?_)⟩
        rintro rfl
        simp at same
        omega

theorem toList_fraction (nanos : Nat) (small : nanos < 1000000000) :
    (fraction nanos).toList = if nanos = 0 then [] else '.' :: dropZeros (digits 9 nanos) := by
  have wide : width nanos ≤ 9 := (width_le_iff (by omega)).mpr small
  unfold fraction
  split
  · rfl
  · rw [String.toList_ofList, toList_pad, Nat.max_eq_left wide]
    rfl

/-- The fractions of two instants of one second, as far as the final `Z`. -/
theorem toList_fraction_lt_iff {m n : Nat} (less : m < n) (small : n < 1000000000) :
    (fraction m).toList ++ ['Z'] < (fraction n).toList ++ ['Z'] ↔ ¬ ∃ k ≤ 9, 10 ^ k ∣ m ∧ n < m + 10 ^ k := by
  rw [toList_fraction m (by omega), toList_fraction n small, if_neg (show n ≠ 0 by omega)]
  split
  · rename_i zero
    subst zero
    constructor
    · intro ordered
      rcases List.cons_lt_cons_iff.mp ordered with wrong | ⟨wrong, _⟩
      · exact absurd wrong (by decide)
      · exact absurd wrong (by decide)
    · exact fun clear => absurd ⟨9, by omega, by omega, by omega⟩ clear
  · rw [List.cons_append, List.cons_append, List.cons_lt_cons_iff]
    simp only [lt_irrefl, true_and, false_or]
    exact fraction_lt_iff (by decide) small less

theorem field_lt_iff {m n : Nat} (left : m < 100) (right : n < 100) (sep : Char) (u v : List Char) :
    digits 2 m ++ sep :: u < digits 2 n ++ sep :: v ↔ m < n ∨ m = n ∧ u < v := by
  rw [append_lt_append_iff (by simp), digits_lt_iff left right, digits_inj left right, List.cons_lt_cons_iff]
  simp

/-- What follows the year in the text of an instant. -/
def afterYear (c : Clock) : List Char :=
  digits 2 c.date.month ++ '-' :: (digits 2 c.date.day ++ 'T' :: (digits 2 c.hour ++ ':' :: (digits 2 c.minute ++ ':' ::
    (digits 2 c.second ++ ((fraction c.nanos).toList ++ ['Z'])))))

theorem utc_bounds (t : Time) : (utc t).date.month < 100 ∧ (utc t).date.day < 100 ∧ (utc t).hour < 100 ∧
    (utc t).minute < 100 ∧ (utc t).second < 100 ∧ (utc t).nanos < 1000000000 := by
  obtain ⟨month, day⟩ := civil_bounds (t / Calendar.day)
  refine ⟨month, day, ?_⟩
  simp only [utc, Calendar.day, Calendar.second]
  omega

theorem toList_rfc3339Nano (t : Time) :
    (rfc3339Nano t).toList = (padYear (utc t).date.year).toList ++ '-' :: afterYear (utc t) := by
  obtain ⟨month, day, hour, minute, second, _⟩ := utc_bounds t
  simp only [rfc3339Nano, String.toList_append, toList_pad_two month, toList_pad_two day, toList_pad_two hour,
    toList_pad_two minute, toList_pad_two second, afterYear, List.append_assoc]
  rfl

/-- A later second has a later date, or a later time on the same date. -/
theorem utc_before {a b : Int} (less : a / second < b / second) :
    (utc a).date.Before (utc b).date ∨ (utc a).date = (utc b).date ∧
      ((utc a).hour < (utc b).hour ∨ (utc a).hour = (utc b).hour ∧ ((utc a).minute < (utc b).minute ∨
        (utc a).minute = (utc b).minute ∧ (utc a).second < (utc b).second)) := by
  simp only [second] at less
  rcases (show a / day ≤ b / day by simp only [day, second]; omega).lt_or_eq with earlier | same
  · exact .inl (civil_before earlier)
  · refine .inr ⟨congrArg civil same, ?_⟩
    simp only [utc]
    simp only [day, second] at same ⊢
    omega

/-- Two instants of one second differ in their nanoseconds only. -/
theorem utc_same {a b : Int} (same : a / second = b / second) :
    utc b = { utc a with nanos := (utc b).nanos } := by
  simp only [second] at same
  have days : b / day = a / day := by simp only [day, second]; omega
  have seconds : (b % day).toNat / 1000000000 = (a % day).toNat / 1000000000 := by
    simp only [day, second] at days ⊢
    omega
  simp only [utc, days, seconds]

theorem utc_nanos (t : Int) : ((utc t).nanos : Int) = t % second := by
  simp only [utc, day, second]
  omega

theorem afterYear_lt_of_before {a b : Int} (less : a / second < b / second)
    (year : (utc a).date.year = (utc b).date.year) : afterYear (utc a) < afterYear (utc b) := by
  obtain ⟨month, day, hour, minute, sec, _⟩ := utc_bounds a
  obtain ⟨month', day', hour', minute', sec', _⟩ := utc_bounds b
  unfold afterYear
  rw [field_lt_iff month month', field_lt_iff day day', field_lt_iff hour hour', field_lt_iff minute minute',
    append_lt_append_iff (by simp), digits_lt_iff sec sec', digits_inj sec sec']
  rcases utc_before less with (wrong | ⟨_, earlier⟩) | ⟨date, earlier⟩
  · omega
  · rcases earlier with m | ⟨m, d⟩
    · exact .inl m
    · exact .inr ⟨m, .inl d⟩
  · rw [date]
    refine .inr ⟨rfl, .inr ⟨rfl, ?_⟩⟩
    rcases earlier with h | ⟨h, m | ⟨m, s⟩⟩
    · exact .inl h
    · exact .inr ⟨h, .inl m⟩
    · exact .inr ⟨h, .inr ⟨m, .inl s⟩⟩

/-- The text of a later instant continues the fraction of an earlier one. -/
def Continues (a b : Int) : Prop := ∃ k ≤ 9, (10 ^ k : Int) ∣ a ∧ b < a + 10 ^ k

theorem Continues.same_second {a b : Int} (less : a < b) (continues : Continues a b) : a / second = b / second := by
  obtain ⟨k, short, divides, near⟩ := continues
  simp only [second]
  interval_cases k <;> norm_num at divides near <;> omega

theorem continues_nanos {a b : Int} (same : a / second = b / second) :
    Continues a b ↔ ∃ k ≤ 9, 10 ^ k ∣ (utc a).nanos ∧ (utc b).nanos < (utc a).nanos + 10 ^ k := by
  have left := utc_nanos a
  have right := utc_nanos b
  unfold Continues
  apply exists_congr
  intro k
  apply and_congr_right
  intro short
  simp only [second] at same left right
  interval_cases k <;> norm_num <;> omega

theorem afterYear_lt_iff_of_same {a b : Int} (less : a < b) (same : a / second = b / second) :
    afterYear (utc a) < afterYear (utc b) ↔ ¬ Continues a b := by
  have nanos : (utc a).nanos < (utc b).nanos := by
    have left := utc_nanos a
    have right := utc_nanos b
    simp only [second] at same left right
    omega
  rw [continues_nanos same, ← toList_fraction_lt_iff nanos (utc_bounds b).2.2.2.2.2, utc_same same]
  unfold afterYear
  simp [append_lt_append_iff]

/-- The text of a later instant of the same year. -/
theorem afterYear_lt_iff {a b : Int} (less : a < b) (year : (utc a).date.year = (utc b).date.year) :
    afterYear (utc a) < afterYear (utc b) ↔ ¬ Continues a b := by
  by_cases same : a / second = b / second
  · exact afterYear_lt_iff_of_same less same
  · have later : a / second < b / second := by simp only [second] at same ⊢; omega
    exact iff_of_true (afterYear_lt_of_before later year) fun continues => same (continues.same_second less)

theorem year_mono {a b : Int} (less : a < b) : (utc a).date.year ≤ (utc b).date.year := by
  by_cases same : a / second = b / second
  · rw [utc_same same]
  · rcases utc_before (show a / second < b / second by simp only [second] at same ⊢; omega) with (y | ⟨y, _⟩) | ⟨date, _⟩
    · exact y.le
    · exact y.le
    · rw [date]

end Cronova.Calendar

namespace Cronova.Store.DB

open Calendar Text

/-- The texts of two instants, the first one earlier, are in the same order. -/
def SortsAsText (a b : Int) : Prop :=
  ((utc a).date.year ≠ (utc b).date.year → YearsSort (utc a).date.year (utc b).date.year) ∧ ¬ Continues a b

theorem fmtTime_lt_iff {a b : Int} (less : a < b) : fmtTime a < fmtTime b ↔ SortsAsText a b := by
  rw [String.lt_iff_toList_lt, fmtTime, fmtTime, toList_rfc3339Nano, toList_rfc3339Nano]
  unfold SortsAsText
  by_cases year : (utc a).date.year = (utc b).date.year
  · rw [year, append_lt_append_iff rfl, List.cons_lt_cons_iff]
    simp [afterYear_lt_iff less year]
  · have apart : ¬ Continues a b := fun continues => year (by rw [utc_same (continues.same_second less)])
    rw [padYear_lt_iff (lt_of_le_of_ne (year_mono less) year)]
    simp [year, apart]

/-- Stored timestamps sort like instants, except where the text of the later one continues
the fraction of the earlier one, and among years that are not written with four digits. -/
theorem stored_timestamps_sort (a b : Time) :
    ((a < b → fmtTime a < fmtTime b) ∧ (a = b → fmtTime a = fmtTime b)) ↔ (a < b → SortsAsText a b) := by
  constructor
  · intro sorts less
    exact (fmtTime_lt_iff less).mp (sorts.1 less)
  · intro sorts
    exact ⟨fun less => (fmtTime_lt_iff less).mpr (sorts less), congrArg fmtTime⟩

/-- Half a second past midnight sorts before midnight. -/
theorem midnight_sorts_last : ¬ ∀ a b : Time, (a < b → fmtTime a < fmtTime b) ∧ (a = b → fmtTime a = fmtTime b) := by
  intro sorts
  have wrong := (sorts 0 500000000).1 (by decide)
  exact absurd wrong (by decide +kernel)

end Cronova.Store.DB
