import Cronova.Text.Placeholder

/-! Replacement text of a regular expression without groups, where `$` starts a reference.

Only `$0` refers to anything, the text that is replaced; every other name gives the empty text, and `$$` one `$`.
So a replacement with any of these loses a `$`, and one without them is taken as it is.
-/

set_option autoImplicit false

namespace Cronova.Text

/-- A letter, a digit or an underscore; beyond ASCII the tables of Unicode say which. -/
def isNameChar (letter : Char → Bool) (c : Char) : Bool := c.isAlphanum || c == '_' || (127 < c.toNat && letter c)

/-- `extract`: the name after a `$`, braced or as long as it goes, and the text after it. -/
def extract (letter : Char → Bool) (text : List Char) : Option (List Char × List Char) :=
  match text with
  | '{' :: inner =>
    let name := inner.takeWhile (isNameChar letter)
    match inner.dropWhile (isNameChar letter) with
    | '}' :: rest => if name = [] then none else some (name, rest)
    | _ => none
  | _ =>
    let name := text.takeWhile (isNameChar letter)
    if name = [] then none else some (name, text.dropWhile (isNameChar letter))

/-- `expand`, where `whole` is the text that is replaced; the number counts the characters of a reference that are left. -/
def expandFrom (letter : Char → Bool) (whole : List Char) : Nat → List Char → List Char
  | _, [] => []
  | left + 1, _ :: cs => expandFrom letter whole left cs
  | 0, c :: cs =>
    if c ≠ '$' then c :: expandFrom letter whole 0 cs
    else if cs.head? = some '$' then '$' :: expandFrom letter whole 1 cs
    else match extract letter cs with
      | none => '$' :: expandFrom letter whole 0 cs
      | some (name, rest) => (if name = ['0'] then whole else []) ++ expandFrom letter whole (cs.length - rest.length) cs

def expand (letter : Char → Bool) (template whole : List Char) : List Char := expandFrom letter whole 0 template

/-- Whether the text after a `$` makes it more than a `$`. -/
def refers (letter : Char → Bool) (cs : List Char) : Bool := cs.head? == some '$' || (extract letter cs).isSome

/-- Whether a replacement text has `$$`, `$name` or `${name}`. -/
def isTemplate (letter : Char → Bool) : List Char → Bool
  | [] => false
  | c :: cs => (c == '$' && refers letter cs) || isTemplate letter cs

section Expand

variable {letter : Char → Bool} {whole : List Char}

theorem expandFrom_eq (left : Nat) (cs : List Char) : expandFrom letter whole left cs = expandFrom letter whole 0 (cs.drop left) := by
  induction left generalizing cs with
  | zero => rfl
  | succ left ih =>
    cases cs with
    | nil => rfl
    | cons c cs => exact ih cs

theorem expand_of_plain {template : List Char} (plain : isTemplate letter template = false) : expand letter template whole = template := by
  induction template with
  | nil => rfl
  | cons c cs ih =>
    simp only [isTemplate, Bool.or_eq_false_iff, Bool.and_eq_false_iff, refers] at plain
    obtain ⟨here, later⟩ := plain
    unfold expand at ih ⊢
    unfold expandFrom
    by_cases dollar : c = '$'
    · have alone : ¬ cs.head? = some '$' ∧ extract letter cs = none := by simpa [dollar] using here
      rw [if_neg (not_not.mpr dollar), if_neg alone.1, alone.2]
      simp only [ih later, dollar]
    · rw [if_pos dollar, ih later]

/-- Every reference loses its `$`. -/
theorem count_expand (unmarked : whole.count '$' = 0) (template : List Char) :
    (expand letter template whole).count '$' ≤ template.count '$' ∧
      (isTemplate letter template = true → (expand letter template whole).count '$' < template.count '$') := by
  induction size : template.length using Nat.strong_induction_on generalizing template with
  | _ n ih =>
    cases template with
    | nil => exact ⟨le_refl _, nofun⟩
    | cons c cs =>
      have shorter : ∀ left, (expandFrom letter whole left cs).count '$' ≤ (cs.drop left).count '$' := by
        intro left
        rw [expandFrom_eq]
        exact (ih (cs.drop left).length (by simp only [List.length_cons] at size; simp; omega) (cs.drop left) rfl).1
      have dropped : ∀ left, (cs.drop left).count '$' ≤ cs.count '$' := fun left => (List.drop_sublist left cs).count_le '$'
      obtain ⟨tail, strict⟩ := ih cs.length (by simpa using size ▸ Nat.lt_succ_self _) cs rfl
      unfold expand at tail strict ⊢
      unfold expandFrom
      by_cases dollar : c = '$'
      · subst c
        rw [if_neg (not_not.mpr rfl)]
        split
        · rename_i doubled
          obtain ⟨rest, rfl⟩ : ∃ rest, cs = '$' :: rest := by
            cases cs with
            | nil => simp at doubled
            | cons d rest => exact ⟨rest, by simpa using doubled⟩
          have after := shorter 1
          rw [List.drop_one, List.tail_cons] at after
          simp only [List.count_cons_self]
          omega
        · rename_i single
          cases found : extract letter cs with
          | none =>
            simp only [isTemplate, refers, found, List.count_cons_self]
            refine ⟨by omega, fun template => ?_⟩
            have later : isTemplate letter cs = true := by simpa [single] using template
            have := strict later
            omega
          | some read =>
            obtain ⟨name, rest⟩ := read
            have after := shorter (cs.length - rest.length)
            have below := dropped (cs.length - rest.length)
            have named : (if name = ['0'] then whole else []).count '$' = 0 := by
              split
              · exact unmarked
              · rfl
            simp only [List.count_append, named, List.count_cons_self]
            omega
      · rw [if_pos dollar]
        simp only [List.count_cons_of_ne dollar, isTemplate, Bool.or_eq_true, Bool.and_eq_true, beq_iff_eq, dollar, false_and, false_or]
        exact ⟨tail, strict⟩

end Expand

end Cronova.Text
