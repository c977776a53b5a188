import Cronova.Calendar
import Mathlib.Data.List.Basic
import Mathlib.Algebra.Group.Int.Defs

/-! Instants in a time zone: `time.Date`, `Time.AddDate` and `Time.Weekday`, in exact arithmetic. -/

set_option autoImplicit false

namespace Cronova.Datetmpl

open Calendar (Time second day civil)

/-- A zone in force between two instants, in seconds. -/
structure Zone where
  offset : Int
  start : Int
  stop : Int

/-- `time.Location`. The offsets of the zone files have 32 bits. -/
structure Location where
  lookup : Int → Zone
  bounded : ∀ unix, -2 ^ 31 ≤ (lookup unix).offset ∧ (lookup unix).offset < 2 ^ 31

def utc : Location where
  lookup _ := ⟨0, 0, 0⟩
  bounded _ := by decide

/-- The number of a day, counted from 1970-01-01; months and days beyond their ends are carried over. -/
def dayNumber (year month dayOfMonth : Int) : Int :=
  let year := year + (month - 1) / 12
  let month := (month - 1) % 12 + 1
  let year := if month ≤ 2 then year - 1 else year
  let era := year / 400
  let yoe := year % 400
  let doy := (153 * ((month + 9) % 12) + 2) / 5 + dayOfMonth - 1
  era * 146097 + (yoe * 365 + yoe / 4 - yoe / 100 + doy) - 719468

example : dayNumber 1970 1 1 = 0 := by decide
example : dayNumber 2026 2 29 = 20513 := by decide

namespace Location

variable (loc : Location)

/-- What a clock in the zone shows, as if it were UTC. -/
def wall (t : Time) : Int := t + (loc.lookup (t / second)).offset * second

/-- The offset that `time.Date` subtracts from a wall clock reading, in seconds. -/
def offsetAt (unix : Int) : Int :=
  let zone := loc.lookup unix
  if zone.offset = 0 then 0
  else if unix - zone.offset < zone.start ∨ zone.stop ≤ unix - zone.offset then (loc.lookup (unix - zone.offset)).offset
  else zone.offset

/-- `time.Date`, with the time of day in nanoseconds. -/
def date (year month dayOfMonth clock : Int) : Time :=
  let wall := dayNumber year month dayOfMonth * day + clock
  wall - loc.offsetAt (wall / second) * second

/-- `Time.AddDate`. -/
def addDate (t : Time) (years months days : Int) : Time :=
  let today := civil (loc.wall t / day)
  loc.date (today.year + years) (today.month + months) (today.day + days) (loc.wall t % day)

/-- `Time.Weekday`: Sunday is zero. -/
def weekday (t : Time) : Int := (loc.wall t / day + 4) % 7

theorem offsetAt_bounded (unix : Int) : -2 ^ 31 ≤ loc.offsetAt unix ∧ loc.offsetAt unix < 2 ^ 31 := by
  unfold offsetAt
  dsimp only
  split
  · decide
  · split
    · exact loc.bounded _
    · exact loc.bounded _

theorem dayNumber_add (year month dayOfMonth n : Int) : dayNumber year month (dayOfMonth + n) = dayNumber year month dayOfMonth + n := by
  unfold dayNumber
  dsimp only
  omega

/-- A shift by days moves the wall clock by whole days; only the offset may be another one. -/
theorem addDate_days (t : Time) : ∃ base : Int, ∀ n : Int, ∃ offset : Int, -2 ^ 31 ≤ offset ∧ offset < 2 ^ 31 ∧
    loc.addDate t 0 0 n = base + n * day - offset * second := by
  let today := civil (loc.wall t / day)
  let start := dayNumber today.year today.month today.day
  refine ⟨start * day + loc.wall t % day, fun n => ?_⟩
  have bounded := loc.offsetAt_bounded (((start + n) * day + loc.wall t % day) / second)
  refine ⟨_, bounded.1, bounded.2, ?_⟩
  have moved : dayNumber (today.year + 0) (today.month + 0) (today.day + n) = start + n := by
    rw [Int.add_zero, Int.add_zero, dayNumber_add]
  have sum : (start + n) * day + loc.wall t % day = start * day + loc.wall t % day + n * day := by
    rw [Int.add_mul]
    omega
  unfold addDate date
  dsimp only
  rw [moved, sum]

/-- Shifts by numbers of days that are far apart lead to different instants. -/
theorem addDate_apart (t : Time) {m n : Int} (far : m + 2 ^ 33 ≤ n ∨ n + 2 ^ 33 ≤ m) :
    loc.addDate t 0 0 m ≠ loc.addDate t 0 0 n := by
  obtain ⟨base, shifted⟩ := loc.addDate_days t
  obtain ⟨o, low, high, first⟩ := shifted m
  obtain ⟨p, low', high', other⟩ := shifted n
  rw [first, other]
  intro same
  have same : (base + m * day - o * second : Int) = base + n * day - p * second := same
  simp only [day, second] at same
  omega

end Location

end Cronova.Datetmpl
