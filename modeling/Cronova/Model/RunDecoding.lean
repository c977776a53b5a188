import Cronova.Model.RunText
import Cronova.Store.Timestamps

/-! Run ids can be read back: the DAG, the form and the key are known from the text. -/

set_option autoImplicit false

namespace Cronova.Text

/-- Two texts that are split at the last place of a character. -/
theorem split_last {A : Type} {a : A} {x y u v : List A} (left : a ∉ u) (right : a ∉ v) (same : x ++ a :: u = y ++ a :: v) :
    x = y ∧ u = v := by
  rcases List.append_eq_append_iff.mp same with ⟨more, rfl, rest⟩ | ⟨more, rfl, rest⟩
  · cases more with
    | nil => exact ⟨(List.append_nil x).symm, (List.cons.inj rest).2⟩
    | cons b more =>
      obtain ⟨_, rfl⟩ := List.cons.inj rest
      exact absurd (by simp) left
  · cases more with
    | nil => exact ⟨List.append_nil y, (List.cons.inj rest).2.symm⟩
    | cons b more =>
      obtain ⟨_, rfl⟩ := List.cons.inj rest
      exact absurd (by simp) right

/-- Two texts that are split at the only place of a character in one of them. -/
theorem split_first {A : Type} {a : A} {x y u v : List A} (before : a ∉ x) (after : a ∉ u) (same : x ++ a :: u = y ++ a :: v) :
    x = y ∧ u = v := by
  obtain ⟨front, _, back⟩ := (List.append_cons_inj_of_notMem before after).mp same
  exact ⟨front, back⟩

end Cronova.Text

namespace Cronova.Calendar

open Text

/-! ### Instants -/

theorem padYear_injective {y z : Int} (same : (padYear y).toList = (padYear z).toList) : y = z := by
  have unsigned (year : Int) : '-' ∉ digits (yearWidth year) year.natAbs := fun listed => absurd (mem_digits listed).1 (by decide)
  have abs {y z : Int} (same : digits (yearWidth y) y.natAbs = digits (yearWidth z) z.natAbs) : y.natAbs = z.natAbs :=
    digits_injective (lt_pow_yearWidth y) (lt_pow_yearWidth z) same
  rw [toList_padYear, toList_padYear] at same
  by_cases negative : y < 0
  · by_cases negative' : z < 0
    · rw [if_pos negative, if_pos negative'] at same
      have := abs (List.append_cancel_left same)
      omega
    · rw [if_pos negative, if_neg negative'] at same
      have sign : '-' ∈ digits (yearWidth z) z.natAbs := by
        rw [← show _ = digits (yearWidth z) z.natAbs from same]
        exact .head _
      exact absurd sign (unsigned z)
  · by_cases negative' : z < 0
    · rw [if_neg negative, if_pos negative'] at same
      have sign : '-' ∈ digits (yearWidth y) y.natAbs := by
        rw [show digits (yearWidth y) y.natAbs = _ from same]
        exact .head _
      exact absurd sign (unsigned y)
    · rw [if_neg negative, if_neg negative'] at same
      have := abs same
      omega

theorem fraction_injective {m n : Nat} (left : m < 1000000000) (right : n < 1000000000)
    (same : (fraction m).toList = (fraction n).toList) : m = n := by
  rw [toList_fraction m left, toList_fraction n right] at same
  split at same
  · split at same
    · omega
    · cases same
  · split at same
    · cases same
    · obtain ⟨zeros, whole, blank⟩ := dropZeros_prefix (digits 9 m)
      obtain ⟨zeros', whole', blank'⟩ := dropZeros_prefix (digits 9 n)
      have kept := (List.cons.inj same).2
      have lengths : zeros.length = zeros'.length := by
        have total := congrArg List.length whole
        have total' := congrArg List.length whole'
        rw [length_digits, List.length_append] at total total'
        rw [kept] at total
        omega
      rw [List.eq_replicate_of_mem blank, lengths, kept, ← List.eq_replicate_of_mem blank', ← whole'] at whole
      exact (digits_inj left right).mp whole

/-- An instant is known from its date and its time of day. -/
theorem utc_injective {a b : Int} (same : utc a = utc b) : a = b := by
  by_contra apart
  wlog less : a < b generalizing a b
  · exact this same.symm (Ne.symm apart) (lt_of_le_of_ne (Int.not_lt.mp less) (Ne.symm apart))
  have nanos := utc_nanos a
  rw [same, utc_nanos b] at nanos
  by_cases seconds : a / second = b / second
  · simp only [second] at seconds nanos
    omega
  · rcases utc_before (show a / second < b / second by simp only [second] at seconds ⊢; omega) with earlier | ⟨_, earlier⟩
    · rw [same] at earlier
      unfold Date.Before at earlier
      omega
    · rw [same] at earlier
      omega

/-- The day of an instant as its id writes it. -/
def dayText (c : Clock) : List Char := (padYear c.date.year).toList ++ (digits 2 c.date.month ++ digits 2 c.date.day)

/-- The time of day as an id writes it. -/
def clockText (c : Clock) : List Char :=
  digits 2 c.hour ++ (digits 2 c.minute ++ (digits 2 c.second ++ ((fraction c.nanos).toList ++ ['Z'])))

theorem toList_compact (t : Time) : (compact t).toList = dayText (utc t) ++ 'T' :: clockText (utc t) := by
  obtain ⟨month, day, hour, minute, second, _⟩ := utc_bounds t
  simp only [compact, String.toList_append, toList_pad_two month, toList_pad_two day, toList_pad_two hour,
    toList_pad_two minute, toList_pad_two second, dayText, clockText, List.append_assoc]
  rfl

theorem mem_padYear {year : Int} {c : Char} (listed : c ∈ (padYear year).toList) : c ≤ '9' := by
  rw [toList_padYear, List.mem_append] at listed
  rcases listed with sign | digit
  · split at sign
    · obtain rfl := List.mem_singleton.mp sign
      decide
    · cases sign
  · exact (mem_digits digit).2

theorem mem_dayText {c : Clock} {x : Char} (listed : x ∈ dayText c) : x ≤ '9' := by
  unfold dayText at listed
  rw [List.mem_append, List.mem_append] at listed
  rcases listed with year | month | day
  · exact mem_padYear year
  · exact (mem_digits month).2
  · exact (mem_digits day).2

theorem mem_clockText {c : Clock} {x : Char} (small : c.nanos < 1000000000) (listed : x ∈ clockText c) : x ≤ '9' ∨ x = 'Z' := by
  unfold clockText at listed
  simp only [List.mem_append, List.mem_singleton] at listed
  rcases listed with hour | minute | sec | nanos | rfl
  · exact .inl (mem_digits hour).2
  · exact .inl (mem_digits minute).2
  · exact .inl (mem_digits sec).2
  · rw [toList_fraction c.nanos small] at nanos
    split at nanos
    · cases nanos
    · rcases List.mem_cons.mp nanos with rfl | digit
      · exact .inl (by decide)
      · exact .inl (mem_digits ((List.rdropWhile_prefix _ _).subset digit)).2
  · exact .inr rfl

/-- The `T` of an instant is its only one. -/
theorem compact_split (t : Time) : 'T' ∉ dayText (utc t) ∧ 'T' ∉ clockText (utc t) := by
  constructor
  · exact fun listed => absurd (mem_dayText listed) (by decide)
  · intro listed
    rcases mem_clockText (utc_bounds t).2.2.2.2.2 listed with small | wrong
    · exact absurd small (by decide)
    · exact absurd wrong (by decide)

theorem compact_injective {a b : Time} (same : (compact a).toList = (compact b).toList) : a = b := by
  rw [toList_compact, toList_compact] at same
  obtain ⟨days, clocks⟩ := split_last (compact_split a).2 (compact_split b).2 same
  obtain ⟨month, day, hour, minute, sec, nanos⟩ := utc_bounds a
  obtain ⟨month', day', hour', minute', sec', nanos'⟩ := utc_bounds b
  unfold dayText at days
  unfold clockText at clocks
  obtain ⟨years, monthDays⟩ := List.append_inj' days (by simp)
  obtain ⟨months, dayTexts⟩ := List.append_inj monthDays (by simp)
  obtain ⟨hours, clocks⟩ := List.append_inj clocks (by simp)
  obtain ⟨minutes, clocks⟩ := List.append_inj clocks (by simp)
  obtain ⟨seconds, fractions⟩ := List.append_inj clocks (by simp)
  apply utc_injective
  have dates : (utc a).date = (utc b).date := by
    have year := padYear_injective years
    have month := (digits_inj month month').mp months
    have day := (digits_inj day day').mp dayTexts
    calc (utc a).date = ⟨(utc a).date.year, (utc a).date.month, (utc a).date.day⟩ := rfl
      _ = ⟨(utc b).date.year, (utc b).date.month, (utc b).date.day⟩ := by rw [year, month, day]
      _ = (utc b).date := rfl
  calc utc a = ⟨(utc a).date, (utc a).hour, (utc a).minute, (utc a).second, (utc a).nanos⟩ := rfl
    _ = ⟨(utc b).date, (utc b).hour, (utc b).minute, (utc b).second, (utc b).nanos⟩ := by
      rw [dates, (digits_inj hour hour').mp hours, (digits_inj minute minute').mp minutes, (digits_inj sec sec').mp seconds,
        fraction_injective nanos nanos' (List.append_cancel_right fractions)]
    _ = utc b := rfl

end Cronova.Calendar

namespace Cronova.Model

open Calendar Text

/-! ### Run ids -/

/-- The word of a run that was not scheduled. -/
def RunID.word : RunID → Option (List Char)
  | logical _ _ => none
  | manual _ _ => some "manual".toList
  | backfill _ _ => some "backfill".toList
  | event _ _ => some "event".toList
  | sub _ _ => some "sub".toList

/-- What stands before the last underscore. -/
def RunID.stem (r : RunID) : List Char := r.dag.toList ++ '_' :: (r.word.elim [] fun word => '_' :: word)

theorem RunID.toList_text_stem (r : RunID) : r.text.toList = r.stem ++ '_' :: r.number.toList := by
  cases r <;> simp [RunID.text, RunID.stem, RunID.number, RunID.dag, RunID.word]

theorem RunID.number_plain (r : RunID) : '_' ∉ r.number.toList :=
  fun listed => (r.numerals_number '_' listed).ne_underscore rfl

theorem RunID.word_plain (r : RunID) : ∀ word, r.word = some word → '_' ∉ word := by
  cases r <;> simp [RunID.word]

/-- Only an instant has a `T`. -/
theorem RunID.word_iff (r : RunID) : r.word = none ↔ 'T' ∈ r.number.toList := by
  have counter (n : Int) : 'T' ∉ (toString n).toList := by
    intro listed
    rcases mem_toString_int listed with digit | dash
    · exact absurd digit (by decide)
    · exact absurd dash (by decide)
  cases r with
  | logical dag date =>
    refine iff_of_true rfl ?_
    rw [RunID.number, toList_compact]
    simp
  | manual _ n | backfill _ n | sub _ n => exact iff_of_false (by rintro ⟨⟩) (counter n)
  | event _ n => exact iff_of_false (by rintro ⟨⟩) (counter n)

theorem RunID.suffix_eq (r : RunID) : r.suffix = r.word.elim r.number.toList fun word => word ++ '_' :: r.number.toList := by
  cases r <;> simp [RunID.suffix, RunID.mark, RunID.word]

/-- A number ends with a digit, an instant with a `Z`. -/
theorem RunID.number_ends (r : RunID) :
    ∃ front last, r.number.toList = front ++ [last] ∧ (('0' ≤ last ∧ last ≤ '9') ∨ last = 'Z') := by
  have counter (n : Int) : ∃ front last, (toString n).toList = front ++ [last] ∧ (('0' ≤ last ∧ last ≤ '9') ∨ last = 'Z') := by
    obtain ⟨front, last, text, digit⟩ := toString_int_ends n
    exact ⟨front, last, text, .inl digit⟩
  cases r with
  | logical _ date =>
    have text : (compact date).toList = dayText (utc date) ++ 'T' :: (digits 2 (utc date).hour ++ (digits 2 (utc date).minute ++
        (digits 2 (utc date).second ++ (fraction (utc date).nanos).toList))) ++ ['Z'] := by
      rw [toList_compact, clockText]
      simp
    exact ⟨_, 'Z', text, .inr rfl⟩
  | manual _ n | backfill _ n | sub _ n => exact counter n
  | event _ n => exact counter n

/-- The number is what follows the last underscore, and a word stands between the two before it. -/
theorem RunID.text_parts {r s : RunID} (same : r.text = s.text) : r.dag = s.dag ∧ r.word = s.word ∧ r.number = s.number := by
  have texts := congrArg String.toList same
  rw [r.toList_text_stem, s.toList_text_stem] at texts
  obtain ⟨stems, numbers⟩ := split_last r.number_plain s.number_plain texts
  have forms : r.word = none ↔ s.word = none := by rw [r.word_iff, s.word_iff, numbers]
  have number := String.toList_injective numbers
  unfold RunID.stem at stems
  cases first : r.word with
  | none =>
    rw [first, forms.mp first] at stems
    exact ⟨String.toList_injective (List.append_cancel_right stems), (forms.mp first).symm, number⟩
  | some word =>
    cases second : s.word with
    | none => simp [first, second] at forms
    | some word' =>
      have shift (d : DagID) (a : List Char) : d.toList ++ '_' :: '_' :: a = (d.toList ++ ['_']) ++ '_' :: a := by simp
      rw [first, second, Option.elim_some, Option.elim_some, shift, shift] at stems
      obtain ⟨dags, words⟩ := split_last (r.word_plain word first) (s.word_plain word' second) stems
      exact ⟨String.toList_injective (List.append_cancel_right dags), congrArg some words, number⟩

/-- Two runs with one id text have one DAG, one form and one key. -/
theorem RunID.text_injective : Function.Injective RunID.text := by
  intro r s same
  obtain ⟨dag, word, number⟩ := RunID.text_parts same
  cases r with
  | logical d t =>
    cases s with
    | logical e u =>
      obtain rfl : d = e := dag
      rw [compact_injective (congrArg String.toList number)]
    | _ => simp [RunID.word] at word
  | manual d n =>
    cases s with
    | manual e m =>
      obtain rfl : d = e := dag
      rw [toString_int_injective (congrArg String.toList number)]
    | _ => simp [RunID.word] at word
  | backfill d n =>
    cases s with
    | backfill e m =>
      obtain rfl : d = e := dag
      rw [toString_int_injective (congrArg String.toList number)]
    | _ => simp [RunID.word] at word
  | event d n =>
    cases s with
    | event e m =>
      obtain rfl : d = e := dag
      rw [toString_nat_injective (congrArg String.toList number)]
    | _ => simp [RunID.word] at word
  | sub d n =>
    cases s with
    | sub e m =>
      obtain rfl : d = e := dag
      rw [toString_int_injective (congrArg String.toList number)]
    | _ => simp [RunID.word] at word

end Cronova.Model
