import Cronova.Model.Definition
import Mathlib.Data.List.Chain

/-! The text of run ids: the DAG, two underscores, and a suffix that has no two in a row. -/

set_option autoImplicit false

namespace Cronova.Model

open Calendar

/-- The characters of numbers and instants. -/
def Numeral (c : Char) : Prop := c.isAlphanum = true ∨ c = '.' ∨ c = '-'

theorem Numeral.ne_underscore {c : Char} (numeral : Numeral c) : c ≠ '_' := by
  rintro rfl
  revert numeral
  unfold Numeral
  decide

theorem Numeral.ne_slash {c : Char} (numeral : Numeral c) : c ≠ '/' ∧ c ≠ '%' := by
  constructor <;> rintro rfl <;> revert numeral <;> unfold Numeral <;> decide

def Numerals (text : String) : Prop := ∀ c ∈ text.toList, Numeral c

theorem Numerals.append {a b : String} (left : Numerals a) (right : Numerals b) : Numerals (a ++ b) := by
  intro c listed
  rw [String.toList_append, List.mem_append] at listed
  exact listed.elim (left c) (right c)

theorem numerals_nat (n : Nat) : Numerals (toString n) := by
  intro c listed
  have digits : (toString n).toList = Nat.toDigits 10 n := by simp [toString, Nat.repr]
  rw [digits] at listed
  have digit := Nat.isDigit_of_mem_toDigits (by decide) (by decide) listed
  exact .inl (by simp [Char.isAlphanum, digit])

theorem numerals_dash : Numerals "-" := by
  intro c listed
  obtain rfl : c = '-' := by simpa using listed
  exact .inr (.inr rfl)

theorem numerals_int (n : Int) : Numerals (toString n) := by
  cases n with
  | ofNat n => exact numerals_nat n
  | negSucc n => exact numerals_dash.append (numerals_nat (n + 1))

theorem numerals_pad (width n : Nat) : Numerals (pad width n) := by
  refine Numerals.append ?_ (numerals_nat n)
  intro c listed
  rw [String.toList_ofList] at listed
  obtain rfl := List.eq_of_mem_replicate listed
  exact .inl (by decide)

theorem numerals_padYear (year : Int) : Numerals (padYear year) := by
  unfold padYear
  split
  · exact numerals_dash.append (numerals_pad 4 _)
  · exact numerals_pad 4 _

theorem numerals_fraction (nanos : Nat) : Numerals (fraction nanos) := by
  unfold fraction
  split
  · intro c listed
    simp at listed
  · intro c listed
    rw [String.toList_ofList] at listed
    rcases List.mem_cons.mp listed with rfl | kept
    · exact .inr (.inl rfl)
    · have digit := (List.dropWhile_sublist _).subset (List.mem_reverse.mp kept)
      exact numerals_pad 9 nanos c (List.mem_reverse.mp digit)

theorem numerals_compact (t : Time) : Numerals (compact t) := by
  have letter (text : String) (plain : text.toList.all Char.isAlphanum = true) : Numerals text :=
    fun c listed => .inl (List.all_eq_true.mp plain c listed)
  have T : Numerals "T" := letter "T" (by decide)
  have Z : Numerals "Z" := letter "Z" (by decide)
  unfold compact
  exact (((((((numerals_padYear _).append (numerals_pad 2 _)).append (numerals_pad 2 _)).append T).append (numerals_pad 2 _)).append
    (numerals_pad 2 _)).append (numerals_pad 2 _)).append (numerals_fraction _) |>.append Z

def RunID.dag : RunID → DagID
  | logical dag _ | manual dag _ | backfill dag _ | event dag _ | sub dag _ => dag

/-- The word of a run that was not scheduled, with an underscore after it. -/
def RunID.mark : RunID → String
  | logical _ _ => ""
  | manual _ _ => "manual_"
  | backfill _ _ => "backfill_"
  | event _ _ => "event_"
  | sub _ _ => "sub_"

def RunID.number : RunID → String
  | logical _ date => compact date
  | manual _ at_ => toString at_
  | backfill _ unix => toString unix
  | event _ id => toString id
  | sub _ at_ => toString at_

theorem RunID.numerals_number (r : RunID) : Numerals r.number := by
  cases r with
  | logical _ date => exact numerals_compact date
  | manual _ n | backfill _ n | sub _ n => exact numerals_int n
  | event _ n => exact numerals_nat n

/-- What follows the DAG and its two underscores. -/
def RunID.suffix (r : RunID) : List Char := r.mark.toList ++ r.number.toList

theorem RunID.toList_text (r : RunID) : r.text.toList = (r.dag ++ "__").toList ++ r.suffix := by
  cases r <;> simp [RunID.text, RunID.dag, RunID.suffix, RunID.mark, RunID.number]

/-- Two characters in a row that are not both underscores. -/
def Apart (a b : Char) : Prop := ¬ (a = '_' ∧ b = '_')

instance (a b : Char) : Decidable (Apart a b) := inferInstanceAs (Decidable (¬ _))

theorem isChain_of_numerals {text : List Char} (numerals : ∀ c ∈ text, Numeral c) : text.IsChain Apart := by
  induction text with
  | nil => exact .nil
  | cons c text ih =>
    obtain ⟨first, rest⟩ := List.forall_mem_cons.mp numerals
    exact (ih rest).cons fun _ _ both => first.ne_underscore both.1

def marks : List String := ["", "manual_", "backfill_", "event_", "sub_"]

theorem RunID.mark_listed (r : RunID) : r.mark ∈ marks := by cases r <;> simp [RunID.mark, marks]

theorem marks_plain : ∀ mark ∈ marks, ('_' :: mark.toList).IsChain Apart ∧ '/' ∉ mark.toList ∧ '%' ∉ mark.toList := by decide

/-- No two underscores are next to each other after the ones that follow the DAG. -/
theorem RunID.suffix_apart (r : RunID) : ('_' :: r.suffix).IsChain Apart := by
  have word := (marks_plain r.mark r.mark_listed).1
  have numbers := isChain_of_numerals r.numerals_number
  refine word.append numbers fun x _ y first both => ?_
  exact (r.numerals_number y (List.mem_of_mem_head? first)).ne_underscore both.2

theorem RunID.plain_suffix (r : RunID) : '/' ∉ r.suffix ∧ '%' ∉ r.suffix := by
  have word := (marks_plain r.mark r.mark_listed).2
  unfold RunID.suffix
  rw [List.mem_append, List.mem_append]
  exact ⟨fun listed => listed.elim word.1 fun number => (r.numerals_number _ number).ne_slash.1 rfl,
    fun listed => listed.elim word.2 fun number => (r.numerals_number _ number).ne_slash.2 rfl⟩

/-- A DAG whose id and two underscores begin a run id is the run's DAG, or they begin already the
part that is the DAG's. -/
theorem RunID.begins {d : DagID} {r : RunID} (begins : (d ++ "__").toList <+: r.text.toList) :
    d = r.dag ∨ (d ++ "__").toList <+: (r.dag ++ "__").toList := by
  obtain ⟨tail, same⟩ := begins
  rw [r.toList_text] at same
  rcases List.append_eq_append_iff.mp same with ⟨more, within, _⟩ | ⟨more, beyond, suffix⟩
  · exact .inr ⟨more, within.symm⟩
  · by_cases none : more = []
    · subst none
      rw [List.append_nil] at beyond
      exact .inl (String.append_left_inj "__" |>.mp (String.toList_injective beyond))
    · exfalso
      have chain : ('_' :: more).IsChain Apart := by
        refine r.suffix_apart.prefix ⟨tail, ?_⟩
        rw [suffix]
        rfl
      have last : ['_', '_'] <:+ (d ++ "__").toList := ⟨d.toList, by simp⟩
      have rest : '_' :: more <:+ (d ++ "__").toList := ⟨r.dag.toList ++ ['_'], by simp [beyond]⟩
      have two : ['_', '_'].length ≤ ('_' :: more).length := by
        have longer : 0 < more.length := List.length_pos_iff.mpr none
        exact Nat.succ_le_succ longer
      have inside := (List.suffix_of_suffix_length_le last rest two).isInfix
      have apart := chain.infix inside
      exact absurd apart (by decide)

end Cronova.Model
