import Cronova.Datetmpl.Zone
import Cronova.Text.Trim

/-! `Shift` of `internal/datetmpl/datetmpl.go`: an anchor and offsets that are applied to an instant. -/

set_option autoImplicit false

namespace Cronova.Datetmpl

open Calendar (Time second day civil)
open Text (trim isSpace)

/-- A product or a sum in 64 bits. -/
def int64 (x : Int) : Int := (x + 2 ^ 63) % 2 ^ 64 - 2 ^ 63

def maxInt64 : Int := 2 ^ 63 - 1

def hour : Int := 3600 * second

/-- The bytes `'0'` to `'9'`. -/
def isDigit (c : Char) : Bool := '0' ≤ c && c ≤ '9'

theorem forall_mem_of_all {A : Type} {p : A → Prop} [DecidablePred p] {l : List A} (every : l.all (fun a => decide (p a)) = true) :
    ∀ a ∈ l, p a :=
  fun a member => of_decide_eq_true (List.all_eq_true.mp every a member)

/-- The number that digits denote. -/
def number (digits : List Char) : Int := digits.foldl (fun n c => 10 * n + (c.toNat - '0'.toNat)) 0

/-- `strconv.Atoi` of digits. -/
def atoi (digits : List Char) : Option Int := if number digits ≤ maxInt64 then some (number digits) else none

/-- The characters before which a unit ends. -/
def endsUnit (c : Char) : Bool := c == ' ' || c == '\t' || c == '+' || c == '-'

/-- The characters of an anchor's name. -/
def inAnchor (c : Char) : Bool := c == '_' || ('a' ≤ c && c ≤ 'z')

section

variable (loc : Location)

/-- `applyAnchor`. -/
def applyAnchor (t : Time) (name : List Char) : Option Time :=
  let today := civil (loc.wall t / day)
  let midnight (dayOfMonth : Int) : Time := loc.date today.year today.month dayOfMonth 0
  let back := (loc.weekday t + 6) % 7
  if name = "month_start".toList then some (midnight 1)
  else if name = "month_end".toList then some (loc.addDate (midnight 1) 0 1 (-1))
  else if name = "week_start".toList then some (loc.addDate (midnight today.day) 0 0 (-back))
  else if name = "week_end".toList then some (loc.addDate (midnight today.day) 0 0 (6 - back))
  else none

/-- `applyOffset`: one leading offset, and what follows it. -/
def applyOffset (t : Time) (s : List Char) : Option (Time × List Char) :=
  match s with
  | [] => none
  | mark :: s =>
    if mark ≠ '+' ∧ mark ≠ '-' then none else
    let sign : Int := if mark = '-' then -1 else 1
    let s := trim isSpace s
    let digits := s.takeWhile isDigit
    if digits = [] then none else
    match atoi digits with
    | none => none
    | some n =>
      let n := int64 (n * sign)
      let s := s.dropWhile isDigit
      let unit := s.takeWhile (!endsUnit ·)
      let rest := s.dropWhile (!endsUnit ·)
      if unit = ['d'] then some (loc.addDate t 0 0 n, rest)
      else if unit = ['w'] then some (loc.addDate t 0 0 (int64 (7 * n)), rest)
      else if unit = ['m', 'o'] then some (loc.addDate t 0 n 0, rest)
      else if unit = ['h'] then some (t + int64 (n * hour), rest)
      else none

/-- The loop of `Shift`, for a number of rounds; no result means that it has not ended. -/
def shiftLoop : Nat → Time → List Char → Option (Option Time)
  | 0, _, _ => none
  | rounds + 1, t, rest =>
    if trim isSpace rest = [] then some (some t) else
    match applyOffset loc t (trim isSpace rest) with
    | none => some none
    | some (t, rest) => shiftLoop rounds t rest

/-- The anchor of `Shift`, and what is left for its loop. -/
def takeAnchor (t : Time) (suffix : List Char) : Option (Time × List Char) :=
  match suffix with
  | '.' :: after => (applyAnchor loc t (after.takeWhile inAnchor)).map fun t => (t, after.dropWhile inAnchor)
  | _ => some (t, suffix)

/-- `Shift`, with a bound on the rounds of its loop. -/
def shiftRounds (rounds : Nat) (t : Time) (suffix : List Char) : Option (Option Time) :=
  match takeAnchor loc t suffix with
  | none => some none
  | some (t, rest) => shiftLoop loc rounds t rest

/-- `Shift`: no round is needed beyond one for each character, and one to find nothing left. -/
def Shift (t : Time) (suffix : List Char) : Option Time := (shiftRounds loc (suffix.length + 1) t suffix).getD none

end

/-- `ValidOffset`. -/
def ValidOffset (suffix : List Char) : Bool := (Shift utc 0 suffix).isSome

example : Shift utc 0 ".month_end - 1d+2h".toList = some (29 * day + 2 * hour) := by decide +kernel
example : ValidOffset "-1 d".toList = false := by decide +kernel

end Cronova.Datetmpl
