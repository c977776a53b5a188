import Mathlib.Data.List.Basic

/-! Instants and their text.

An instant is a number of nanoseconds since 1970-01-01T00:00:00Z. The proleptic
Gregorian date of a day is computed in eras of 400 years that start on a first of March.
-/

set_option autoImplicit false

namespace Cronova.Calendar

/-- Nanoseconds since the Unix epoch. -/
abbrev Time := Int

def second : Int := 1000000000

def day : Int := 86400 * second

structure Date where
  year : Int
  month : Nat
  day : Nat
  deriving Repr, DecidableEq

/-- The date of the day with the given number, counted from 1970-01-01. -/
def civil (days : Int) : Date :=
  let z := days + 719468
  let era := z / 146097
  let doe := (z % 146097).toNat
  let yoe := (doe - doe / 1460 + doe / 36524 - doe / 146096) / 365
  let doy := doe - (365 * yoe + yoe / 4 - yoe / 100)
  let mp := (5 * doy + 2) / 153
  let month := if mp < 10 then mp + 3 else mp - 9
  { year := era * 400 + yoe + (if month ≤ 2 then 1 else 0)
    month
    day := doy - (153 * mp + 2) / 5 + 1 }

example : civil 0 = ⟨1970, 1, 1⟩ := by decide
example : civil 20513 = ⟨2026, 3, 1⟩ := by decide

/-- Decimal text, filled with zeros on the left to the given width. -/
def pad (width n : Nat) : String :=
  let text := toString n
  String.ofList (List.replicate (width - text.length) '0') ++ text

def padYear (year : Int) : String :=
  if year < 0 then "-" ++ pad 4 year.natAbs else pad 4 year.natAbs

/-- The fraction `.999999999` of a layout: trailing zeros are dropped, and the point with them. -/
def fraction (nanos : Nat) : String :=
  if nanos = 0 then "" else
  String.ofList ('.' :: ((pad 9 nanos).toList.reverse.dropWhile (· == '0')).reverse)

/-- An instant split into its UTC date and the parts of the day. -/
structure Clock where
  date : Date
  hour : Nat
  minute : Nat
  second : Nat
  nanos : Nat

def utc (t : Time) : Clock :=
  let rest := (t % day).toNat
  let seconds := rest / 1000000000
  { date := civil (t / day)
    hour := seconds / 3600
    minute := seconds / 60 % 60
    second := seconds % 60
    nanos := rest % 1000000000 }

/-- The layout `2006-01-02T15:04:05.999999999Z07:00` in UTC. -/
def rfc3339Nano (t : Time) : String :=
  let c := utc t
  padYear c.date.year ++ "-" ++ pad 2 c.date.month ++ "-" ++ pad 2 c.date.day ++ "T" ++
    pad 2 c.hour ++ ":" ++ pad 2 c.minute ++ ":" ++ pad 2 c.second ++ fraction c.nanos ++ "Z"

/-- The layout `20060102T150405.999999999Z` in UTC. -/
def compact (t : Time) : String :=
  let c := utc t
  padYear c.date.year ++ pad 2 c.date.month ++ pad 2 c.date.day ++ "T" ++
    pad 2 c.hour ++ pad 2 c.minute ++ pad 2 c.second ++ fraction c.nanos ++ "Z"

example : rfc3339Nano (20513 * day + 3661500000000) = "2026-03-01T01:01:01.5Z" := by decide +kernel

end Cronova.Calendar
