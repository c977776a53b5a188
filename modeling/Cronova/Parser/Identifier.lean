import Cronova.Model.RunText
import Cronova.Parser.Document

/-! The characters of ids that the parser accepts. -/

set_option autoImplicit false

namespace Cronova.Parser

open Model

/-- An id starts with a letter or a digit. -/
theorem starts_alphanum {id : String} (legal : isID id = true) : ∃ first rest, id.toList = first :: rest ∧ first.isAlphanum = true := by
  have pattern : idPattern id = true := (Bool.and_eq_true_iff.mp legal).2
  unfold idPattern named at pattern
  split at pattern
  · cases pattern
  · rename_i first rest chars
    exact ⟨first, rest, chars, (Bool.and_eq_true_iff.mp pattern).1⟩

/-- The id of a DAG has no slash and no escape. -/
theorem plain_of_isID {id : String} (legal : isID id = true) : '/' ∉ id.toList ∧ '%' ∉ id.toList := by
  have pattern : idPattern id = true := (Bool.and_eq_true_iff.mp legal).2
  unfold idPattern named at pattern
  split at pattern
  · cases pattern
  · rename_i first rest chars
    simp only [Bool.and_eq_true, List.all_eq_true, Bool.or_eq_true] at pattern
    rw [chars]
    constructor <;> intro listed <;> rcases List.mem_cons.mp listed with rfl | later
    · exact absurd pattern.1 (by decide)
    · exact absurd (pattern.2 _ later) (by decide)
    · exact absurd pattern.1 (by decide)
    · exact absurd (pattern.2 _ later) (by decide)

theorem plain_of_run {r : RunID} (legal : isID r.dag = true) : '/' ∉ r.text.toList ∧ '%' ∉ r.text.toList := by
  have dag := plain_of_isID legal
  rw [r.toList_text, String.toList_append]
  simp [dag, r.plain_suffix]

end Cronova.Parser
