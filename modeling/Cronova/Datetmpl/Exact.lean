import Cronova.Datetmpl.Grammar

/-! When an offset that is read shifts by as much as it says. `applyOffset` multiplies the count of weeks and of hours in 64 bits. -/

set_option autoImplicit false

namespace Cronova.Datetmpl

open Calendar (Time)
open Text (isSpace)

section Wrapping

variable {x : Int}

theorem int64_eq_iff : int64 x = x ↔ -2 ^ 63 ≤ x ∧ x < 2 ^ 63 := by
  unfold int64
  omega

/-- A number that does not fit is replaced by one far away. -/
theorem int64_far (wrapped : int64 x ≠ x) : int64 x + 2 ^ 33 ≤ x ∨ x + 2 ^ 33 ≤ int64 x := by
  rw [Ne, int64_eq_iff] at wrapped
  unfold int64
  omega

end Wrapping

/-- The shift that an offset stands for. -/
def Offset.exact (loc : Location) (t : Time) (o : Offset) : Time :=
  match o.span with
  | .days => loc.addDate t 0 0 o.count
  | .weeks => loc.addDate t 0 0 (7 * o.count)
  | .months => loc.addDate t 0 o.count 0
  | .hours => t + o.count * hour

/-- The days of the weeks, and the nanoseconds of the hours, are numbers of 64 bits. -/
def Offset.Fits (o : Offset) : Prop :=
  match o.span with
  | .weeks => -2 ^ 63 ≤ 7 * o.count ∧ 7 * o.count < 2 ^ 63
  | .hours => -2 ^ 63 ≤ o.count * hour ∧ o.count * hour < 2 ^ 63
  | .days | .months => True

section Exact

variable {loc : Location} {t t' : Time} {s rest : List Char} {o o' : Offset}

theorem Offset.apply_eq_exact_iff (loc : Location) (t : Time) (o : Offset) : o.apply loc t = o.exact loc t ↔ o.Fits := by
  obtain ⟨count, span⟩ := o
  cases span with
  | days => exact iff_of_true rfl trivial
  | months => exact iff_of_true rfl trivial
  | weeks =>
    change loc.addDate t 0 0 (int64 (7 * count)) = loc.addDate t 0 0 (7 * count) ↔ _
    refine Iff.trans ⟨fun same => ?_, congrArg _⟩ int64_eq_iff
    by_contra wrapped
    exact loc.addDate_apart t (int64_far wrapped) same
  | hours =>
    change t + int64 (count * hour) = t + count * hour ↔ _
    exact (Int.add_right_inj t).trans int64_eq_iff

/-- The unit of an offset shows in its first character. -/
theorem Span.text_injective {span span' : Span} {text text' : List Char} (same : span.text ++ text = span'.text ++ text') : span = span' := by
  cases span <;> cases span' <;> first | rfl | exact absurd (List.cons.inj same).1 (by decide)

/-- A text starts with one offset only. -/
theorem StartsWith.unique (one : StartsWith s o rest) (other : StartsWith s o' rest) : o = o' := by
  obtain ⟨mark, inner, digits, back, whole, _, within, nonempty, digit, _, _, _, count⟩ := one
  obtain ⟨mark', inner', digits', back', whole', _, within', nonempty', digit', _, _, _, count'⟩ := other
  -- white space in front of the digits, and the digits, end where something else begins
  have digits_ {inner digits text : List Char} {span : Span} (within : ∀ c ∈ inner, isSpace c = true) (nonempty : digits ≠ [])
      (digit : ∀ c ∈ digits, isDigit c = true) :
      ((inner ++ (digits ++ (span.text ++ text))).dropWhile isSpace).takeWhile isDigit = digits ∧
      ((inner ++ (digits ++ (span.text ++ text))).dropWhile isSpace).dropWhile isDigit = span.text ++ text := by
    obtain ⟨d, more, rfl⟩ := List.exists_cons_of_ne_nil nonempty
    obtain ⟨u, later, unit, notDigit⟩ := span.text_spec.2.1
    have started := (span_eq within (.inr ⟨d, more ++ (span.text ++ text), rfl, (isDigit_plain (digit d (.head _))).1⟩)).2
    rw [show inner ++ (d :: more ++ (span.text ++ text)) = inner ++ d :: (more ++ (span.text ++ text)) from rfl, started]
    exact span_eq digit (.inr ⟨u, later ++ text, by rw [unit]; rfl, notDigit⟩)
  obtain ⟨rfl, tails⟩ := List.cons.inj (whole.symm.trans whole')
  have one := @digits_ _ _ (rest ++ back) o.span within nonempty digit
  have other := @digits_ _ _ (rest ++ back') o'.span within' nonempty' digit'
  rw [tails] at one
  obtain rfl := one.1.symm.trans other.1
  have spans := Span.text_injective (one.2.symm.trans other.2)
  obtain ⟨c, span⟩ := o
  obtain ⟨c', span'⟩ := o'
  rw [Offset.mk.injEq]
  exact ⟨count.trans count'.symm, spans⟩

/-- An offset that is read is the one that the text starts with, and it is computed exactly if and only if it fits. -/
theorem offset_exact_iff (read : applyOffset loc t s = some (t', rest)) :
    ∃ o, StartsWith s o rest ∧ (∀ o', StartsWith s o' rest → o' = o) ∧ (t' = o.exact loc t ↔ o.Fits) := by
  obtain ⟨o, starts, rfl⟩ := applyOffset_some read
  exact ⟨o, starts, fun o' other => other.unique starts, o.apply_eq_exact_iff loc t⟩

theorem two_weeks : ∃ o, StartsWith "+2w".toList o [] ∧ (∀ o', StartsWith "+2w".toList o' [] → o' = o) ∧
    (1209600000000000 = o.exact utc 0 ↔ o.Fits) :=
  @offset_exact_iff utc 0 _ "+2w".toList [] (by decide +kernel)

/-- The hours of five centuries and more are taken for 25 minutes. -/
theorem hours_wrap : ¬ ∀ s t' o rest, applyOffset utc 0 s = some (t', rest) → StartsWith s o rest → t' = o.exact utc 0 := by
  intro exactly
  have read : applyOffset utc 0 "+5124096h".toList = some (1526290448384, []) := by decide +kernel
  have starts : StartsWith "+5124096h".toList ⟨5124096, .hours⟩ [] :=
    ⟨'+', [], "5124096".toList, [], by decide +kernel, .inl rfl, forall_mem_of_all (by decide), by decide, forall_mem_of_all (by decide), by decide,
      forall_mem_of_all (by decide), .inl rfl, by decide⟩
  exact absurd (exactly _ _ _ _ read starts) (by decide)

example : applyOffset utc 0 "+2635249153387078803w".toList = applyOffset utc 0 "+5d".toList := by decide +kernel

end Exact

end Cronova.Datetmpl
