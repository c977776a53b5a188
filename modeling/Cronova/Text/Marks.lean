import Cronova.Text.Masking

/-! Words that hold the mark of the mask themselves. A mask can complete such a word only where the word begins or ends
with the mark, or holds a whole mask; and then there is a text in which it does.
-/

set_option autoImplicit false

namespace Cronova.Text

variable {A : Type}

/-- A mask, with what stands around it, can be the word. -/
def Completed (star : A) (mask word : List A) : Prop := word.head? = some star ∨ word.getLast? = some star ∨ mask <:+: word

/-- Without the mark a word is not completed. -/
theorem not_completed {star : A} {mask word : List A} (stars : ∀ c ∈ mask, c = star) (nonempty : mask ≠ []) (free : star ∉ word) :
    ¬ Completed star mask word := by
  rintro (first | last | inside)
  · exact free (List.mem_of_mem_head? first)
  · exact free (List.mem_of_getLast? last)
  · obtain ⟨m, mask, rfl⟩ := List.exists_cons_of_ne_nil nonempty
    exact free (inside.subset (stars m (.head _) ▸ .head _))

instance [DecidableEq A] (star : A) (mask word : List A) : Decidable (Completed star mask word) :=
  inferInstanceAs (Decidable (_ ∨ _ ∨ _))

variable [DecidableEq A] {words : List (List A)} {mask : List A} {star : A}

section Hidden

variable (stars : ∀ c ∈ mask, c = star)

include stars

/-- Of a mask, a text that ends with something else holds all or nothing. -/
theorem prefix_of_masked_unmarked {text y : List A} (last : y.getLast? ≠ some star) (unmasked : ¬ mask <:+: y) (start : y <+: masked words mask text) :
    y <+: text := by
  induction text using mask_induction words generalizing y with
  | nil => exact start
  | plain c cs plain ih =>
    rw [masked_cons plain] at start
    cases y with
    | nil => exact List.nil_prefix
    | cons d y =>
      rw [List.cons_prefix_cons] at start ⊢
      refine ⟨start.1, ih ?_ (fun inside => unmasked (inside.trans (List.suffix_cons d y).isInfix)) start.2⟩
      intro ends
      refine last ?_
      rw [List.getLast?_cons, ends]
      rfl
  | word w rest found _ =>
    rw [masked_append found] at start
    by_cases short : y.length ≤ mask.length
    · have part : y <+: mask := List.prefix_of_prefix_length_le start (List.prefix_append mask _) short
      cases ends : y.getLast? with
      | none =>
        rw [List.getLast?_eq_none_iff.mp ends]
        exact List.nil_prefix
      | some c =>
        rw [stars c (part.subset (List.mem_of_getLast? ends))] at ends
        exact absurd ends last
    · have whole : mask <+: y := List.prefix_of_prefix_length_le (List.prefix_append mask _) start (by omega)
      exact absurd whole.isInfix unmasked

/-- A word that no mask completes is in no masked text. -/
theorem masked_hides {w : List A} (member : w ∈ words) (nonempty : w ≠ []) (apart : ¬ Completed star mask w) (text : List A) :
    ¬ w <:+: masked words mask text := by
  unfold Completed at apart
  simp only [not_or] at apart
  obtain ⟨first, last, unmasked⟩ := apart
  intro inside
  induction text using mask_induction words with
  | nil => exact nonempty (List.infix_nil.mp inside)
  | plain c cs plain ih =>
    rw [masked_cons plain] at inside
    rcases List.infix_cons_iff.mp inside with start | later
    · rw [← masked_cons plain] at start
      exact firstMatch_none.mp plain w member nonempty (prefix_of_masked_unmarked stars last unmasked start)
    · exact ih later
  | word v rest found ih =>
    rw [masked_append found, List.infix_append_iff] at inside
    rcases inside with within | later | ⟨x, y, rfl, ends, start⟩
    · obtain ⟨d, more, rfl⟩ := List.exists_cons_of_ne_nil nonempty
      exact first (congrArg some (stars d (within.subset (.head _))))
    · exact ih later
    · cases x with
      | nil => exact ih start.isInfix
      | cons d x => exact first (congrArg some (stars d (ends.subset (.head _))))

end Hidden

section Shown

variable {w : List A}

theorem masked_short {text : List A} (short : text.length < w.length) : masked [w] mask text = text := by
  apply masked_of_clean
  intro v member _ inside
  obtain rfl := List.mem_singleton.mp member
  exact absurd inside.length_le (by omega)

theorem firstMatch_word (nonempty : w ≠ []) (rest : List A) : firstMatch [w] (w ++ rest) = some w := by
  simp [firstMatch, nonempty]

theorem firstMatch_other {text : List A} (other : ¬ w <+: text) : firstMatch [w] text = none := by
  simp [firstMatch, other]

/-- Characters with which the word does not begin stay. -/
theorem masked_apart {sep : List A} (apart : ∀ c ∈ sep, w.head? ≠ some c) (nonempty : w ≠ []) (rest : List A) :
    masked [w] mask (sep ++ rest) = sep ++ masked [w] mask rest := by
  induction sep with
  | nil => rfl
  | cons c sep ih =>
    obtain ⟨d, more, rfl⟩ := List.exists_cons_of_ne_nil nonempty
    have plain : firstMatch [d :: more] (c :: (sep ++ rest)) = none := by
      apply firstMatch_other
      intro start
      rw [List.cons_prefix_cons] at start
      exact apart c (.head _) (congrArg some start.1)
    rw [List.cons_append, masked_cons plain, ih fun e listed => apart e (.tail _ listed)]
    rfl

/-- Behind a word's length of such characters the masking begins anew. -/
theorem masked_restarts {sep : List A} (apart : ∀ c ∈ sep, w.head? ≠ some c) (nonempty : w ≠ []) (long : w.length ≤ sep.length)
    (text rest : List A) : ∃ front, masked [w] mask (text ++ (sep ++ rest)) = front ++ masked [w] mask rest := by
  induction size : text.length using Nat.strong_induction_on generalizing text with
  | _ n ih =>
    cases text with
    | nil => exact ⟨sep, masked_apart apart nonempty rest⟩
    | cons c text =>
      by_cases start : w <+: c :: text ++ (sep ++ rest)
      · obtain ⟨tail, whole⟩ := start
        have read : masked [w] mask (w ++ tail) = mask ++ masked [w] mask tail := masked_append (firstMatch_word nonempty tail)
        rcases List.append_eq_append_iff.mp whole with ⟨more, parts, tail_⟩ | ⟨more, parts, tail_⟩
        · -- the word ends in the text
          have shorter : more.length < n := by
            have positive := List.length_pos_iff.mpr nonempty
            have lengths := congrArg List.length parts
            rw [List.length_append] at lengths
            omega
          obtain ⟨front, later⟩ := ih more.length shorter more rfl
          refine ⟨mask ++ front, ?_⟩
          rw [← whole, read, tail_, later, List.append_assoc]
        · -- the word ends in what separates
          have within : more.length ≤ sep.length := by
            have lengths := congrArg List.length parts
            rw [List.length_append] at lengths
            omega
          obtain ⟨left, split⟩ : more <+: sep := List.prefix_of_prefix_length_le ⟨tail, tail_.symm⟩ (List.prefix_append sep rest) within
          have tail' : tail = left ++ rest := by
            rw [← split, List.append_assoc] at tail_
            exact (List.append_cancel_left tail_).symm
          refine ⟨mask ++ left, ?_⟩
          rw [← whole, read, tail', masked_apart (fun c listed => apart c (split ▸ List.mem_append_right more listed)) nonempty, List.append_assoc]
      · obtain ⟨front, later⟩ := ih text.length (by rw [← size]; exact Nat.lt_succ_self _) text rfl
        have start : ¬ w <+: c :: (text ++ (sep ++ rest)) := start
        refine ⟨c :: front, ?_⟩
        rw [List.cons_append, masked_cons (firstMatch_other start), later]
        rfl

/-- Behind what the word has before a mark, the word is masked: it does not begin with the mark. -/
theorem masked_behind_start {x z : List A} (shape : w = x ++ star :: z) (first : w.head? ≠ some star) (rest : List A) :
    masked [w] mask (x ++ (w ++ rest)) = x ++ (mask ++ masked [w] mask rest) := by
  have nonempty : w ≠ [] := by simp [shape]
  have behind (a b : List A) (split : x = a ++ b) : masked [w] mask (b ++ (w ++ rest)) = b ++ (mask ++ masked [w] mask rest) := by
    induction b generalizing a with
    | nil => exact masked_append (firstMatch_word nonempty rest)
    | cons c b ih =>
      have plain : firstMatch [w] (c :: (b ++ (w ++ rest))) = none := by
        apply firstMatch_other
        intro start
        -- the mark of the word would stand where its first character is
        have same (i : Nat) (inside : i < w.length) : w[i]? = (c :: b ++ (w ++ rest))[i]? := by
          obtain ⟨tail, whole⟩ := start
          have whole : w ++ tail = c :: b ++ (w ++ rest) := whole
          rw [← whole, List.getElem?_append_left inside]
        have mark : w[x.length]? = some star := by simp [shape]
        have inside : x.length < w.length := by simp [shape]
        have begins : w[0]? = some c := by
          rw [same 0 (by omega)]
          rfl
        have moved : (c :: b ++ (w ++ rest))[x.length]? = some c := by
          have size : x.length = a.length + (c :: b).length := by rw [split, List.length_append]
          rw [size, Nat.add_comm, List.getElem?_append_right (Nat.le_add_right _ _), Nat.add_sub_cancel_left, shape, split]
          simp
        rw [same _ inside, moved] at mark
        rw [List.head?_eq_getElem?, begins] at first
        exact first mark
      rw [List.cons_append, masked_cons plain, ih (a ++ [c]) (by simp [split])]
      rfl
  exact behind [] x rfl

/-- A word that a mask completes is found in a masked text, whatever stands before. -/
theorem masked_shows [Nontrivial A] (stars : ∀ c ∈ mask, c = star) (present : mask ≠ []) (nonempty : w ≠ []) (completed : Completed star mask w)
    (text : List A) : ∃ more, w <:+: masked [w] mask (text ++ more) := by
  obtain ⟨d, later, head⟩ := List.exists_cons_of_ne_nil nonempty
  obtain ⟨c, other⟩ := exists_ne d
  have apart : ∀ e ∈ List.replicate w.length c, w.head? ≠ some e := by
    intro e listed same
    rw [List.eq_of_mem_replicate listed, head] at same
    exact other (Option.some.inj same).symm
  obtain ⟨m, marks, shape⟩ := List.exists_cons_of_ne_nil present
  have last : ∃ more, mask = more ++ [star] := by
    refine ⟨mask.dropLast, ?_⟩
    conv => lhs; rw [← List.dropLast_append_getLast present]
    rw [stars _ (List.getLast_mem present)]
  have shown (found : ∃ rest, w <:+: masked [w] mask rest) : ∃ more, w <:+: masked [w] mask (text ++ more) := by
    obtain ⟨rest, inside⟩ := found
    obtain ⟨front, whole⟩ := @masked_restarts _ _ mask _ _ apart nonempty (by simp) text rest
    exact ⟨_, whole ▸ inside.trans (List.suffix_append front _).isInfix⟩
  apply shown
  by_cases first : w.head? = some star
  · obtain ⟨more, ends⟩ := last
    obtain rfl : d = star := by
      rw [head] at first
      exact Option.some.inj first
    refine ⟨w ++ later, more, [], ?_⟩
    rw [masked_append (firstMatch_word nonempty later), masked_short (by simp [head]), ends, head]
    simp
  · rcases completed with first' | ends | ⟨x, z, inside⟩
    · exact absurd first' first
    · obtain ⟨x, split⟩ : ∃ x, w = x ++ [star] := by
        obtain ⟨x, split⟩ := List.getLast?_eq_some_iff.mp ends
        exact ⟨x, split⟩
      have behind := @masked_behind_start _ _ mask _ _ _ _ split first []
      refine ⟨x ++ (w ++ []), [], marks, ?_⟩
      rw [behind, masked_nil, shape, stars m (by simp [shape]), split]
      simp
    · have split : w = x ++ star :: (marks ++ z) := by
        rw [← inside, shape, stars m (by simp [shape])]
        simp
      have short : z.length < w.length := by
        rw [split]
        simp
        omega
      refine ⟨x ++ (w ++ z), [], [], ?_⟩
      rw [masked_behind_start split first z, masked_short short, ← inside]
      simp

end Shown

end Cronova.Text
