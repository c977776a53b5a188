import Mathlib.Data.List.DropRight
import Mathlib.Data.String.Basic

/-! Texts without the white space around them, and texts with a default. -/

set_option autoImplicit false

namespace Cronova.Text

section Lists

variable {A : Type} (drops : A → Bool) (text : List A)

def trim : List A := (text.dropWhile drops).rdropWhile drops

/-- What is trimmed does not start with anything to drop. -/
theorem dropWhile_trim : (trim drops text).dropWhile drops = trim drops text := by
  rw [List.dropWhile_eq_self_iff]
  intro nonempty
  obtain ⟨rest, same⟩ := List.rdropWhile_prefix drops (text.dropWhile drops)
  have longer : 0 < (text.dropWhile drops).length := by
    rw [← same, List.length_append]
    exact Nat.add_pos_left nonempty _
  have first : (trim drops text)[0] = (text.dropWhile drops).get ⟨0, longer⟩ := by
    simp only [trim, List.get_eq_getElem]
    exact (List.rdropWhile_prefix drops (text.dropWhile drops)).getElem nonempty
  rw [first]
  exact List.dropWhile_get_zero_not drops text longer

/-- Trimming twice trims no more. -/
theorem trim_trim : trim drops (trim drops text) = trim drops text := by
  have once : trim drops (trim drops text) = (trim drops text).rdropWhile drops := by
    rw [trim, dropWhile_trim]
  rw [once, trim, List.rdropWhile_idempotent]

/-- Nothing is trimmed where nothing is to drop. -/
theorem trim_eq_self (kept : ∀ a ∈ text, drops a = false) : trim drops text = text := by
  have front : text.dropWhile drops = text := by
    rw [List.dropWhile_eq_self_iff]
    intro nonempty
    simp [kept]
  rw [trim, front, List.rdropWhile_eq_self_iff]
  intro nonempty
  simp [kept]

theorem trim_sublist : (trim drops text).Sublist text :=
  (List.rdropWhile_prefix drops (text.dropWhile drops)).sublist.trans (List.dropWhile_sublist drops)

end Lists

/-- `unicode.IsSpace`. -/
def isSpace (c : Char) : Bool :=
  c ∈ ['\t', '\n', '\x0b', '\x0c', '\r', ' ', '\u0085', '\u00a0', '\u1680', '\u2028', '\u2029', '\u202f', '\u205f', '\u3000'] ||
    ('\u2000' ≤ c && c ≤ '\u200a')

/-- `strings.TrimSpace`. -/
@[irreducible] def trimSpace (text : String) : String := String.ofList (trim isSpace text.toList)

@[simp] theorem trimSpace_trimSpace (text : String) : trimSpace (trimSpace text) = trimSpace text := by
  simp only [trimSpace, String.toList_ofList, trim_trim]

@[simp] theorem trimSpace_empty : trimSpace "" = "" := by decide +kernel

theorem utf8ByteSize_trimSpace_le (text : String) : (trimSpace text).utf8ByteSize ≤ text.utf8ByteSize := by
  conv => rhs; rw [← String.ofList_toList (s := text)]
  rw [trimSpace, String.utf8ByteSize_ofList, String.utf8ByteSize_ofList]
  exact String.utf8Len_le_of_sublist (trim_sublist isSpace text.toList)

/-- The value, or the default for an empty one. -/
@[irreducible] def orDefault (value default : String) : String := if value = "" then default else value

@[simp] theorem orDefault_empty (value : String) : orDefault value "" = value := by
  unfold orDefault
  split
  · rename_i empty
    exact empty.symm
  · rfl

theorem orDefault_ne_empty {default : String} (given : default ≠ "") (value : String) : orDefault value default ≠ "" := by
  unfold orDefault
  split
  · exact given
  · assumption

@[simp] theorem orDefault_orDefault (value default : String) : orDefault (orDefault value default) default = orDefault value default := by
  by_cases given : default = ""
  · simp [given]
  · rw [orDefault.eq_1 (orDefault value default), if_neg (orDefault_ne_empty given value)]

/-- A default that is trimmed itself keeps a trimmed value trimmed. -/
theorem trimSpace_orDefault {value default : String} (trimmed : trimSpace value = value) (same : trimSpace default = default) :
    trimSpace (orDefault value default) = orDefault value default := by
  unfold orDefault
  split
  · exact same
  · exact trimmed

/-- A field with a default keeps the value that it is read as. -/
theorem orDefault_again {default : String} (trimmed : trimSpace default = default) (value : String) :
    orDefault (trimSpace (orDefault (trimSpace value) default)) default = orDefault (trimSpace value) default := by
  rw [trimSpace_orDefault (trimSpace_trimSpace value) trimmed, orDefault_orDefault]

end Cronova.Text
