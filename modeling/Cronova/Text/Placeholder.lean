import Mathlib.Data.List.TakeWhile
import Mathlib.Tactic.Common

/-! Placeholders between double braces, and replacing them one name after another.

Placeholders do not overlap, whatever their names. So one pass over the text, for one name or for
several, finds the same ones, and each is counted by the brace it starts with.
-/

set_option autoImplicit false

namespace Cronova.Text

/-- `\s` of a regular expression. -/
def isBlank (c : Char) : Bool := c == ' ' || c == '\t' || c == '\n' || c == '\x0c' || c == '\r'

/-- What a placeholder asks for. -/
structure Name where
  text : List Char
  nonempty : text ≠ []
  plain : ∀ c ∈ text, isBlank c = false ∧ c ≠ '{' ∧ c ≠ '}'

def dropWord : List Char → List Char → Option (List Char)
  | [], cs => some cs
  | _ :: _, [] => none
  | w :: ws, c :: cs => if w = c then dropWord ws cs else none

/-- The text after a placeholder at its head: double braces around the name and blanks. -/
def placeholder (name : Name) (cs : List Char) : Option (List Char) := do
  let inner ← dropWord ['{', '{'] cs
  let after ← dropWord name.text (inner.dropWhile isBlank)
  dropWord ['}', '}'] (after.dropWhile isBlank)

/-- `ReplaceAllString`: the first number counts the characters of a placeholder that are left. -/
def replaceFrom (name : Name) (filling : List Char → List Char) : Nat → List Char → List Char
  | _, [] => []
  | left + 1, _ :: cs => replaceFrom name filling left cs
  | 0, c :: cs =>
    match placeholder name (c :: cs) with
    | none => c :: replaceFrom name filling 0 cs
    | some rest =>
      filling ((c :: cs).take (cs.length + 1 - rest.length)) ++ replaceFrom name filling (cs.length - rest.length) cs

def replaceAll (name : Name) (filling : List Char → List Char) (cs : List Char) : List Char := replaceFrom name filling 0 cs

/-- How many placeholders the text has. -/
def marks (name : Name) : List Char → Nat
  | [] => 0
  | c :: cs => (if (placeholder name (c :: cs)).isSome then 1 else 0) + marks name cs

/-- Replacing two names at once, in the original text only. -/
def fillFrom (first second : Name) (one two : List Char) : Nat → List Char → List Char
  | _, [] => []
  | left + 1, _ :: cs => fillFrom first second one two left cs
  | 0, c :: cs =>
    match placeholder first (c :: cs), placeholder second (c :: cs) with
    | some rest, _ => one ++ fillFrom first second one two (cs.length - rest.length) cs
    | none, some rest => two ++ fillFrom first second one two (cs.length - rest.length) cs
    | none, none => c :: fillFrom first second one two 0 cs

def fillBoth (first second : Name) (one two : List Char) (cs : List Char) : List Char := fillFrom first second one two 0 cs

/-! ### What is matched -/

/-- The spellings of a placeholder. -/
def Spelled (name : Name) (m : List Char) : Prop :=
  ∃ before after : List Char, (∀ c ∈ before, isBlank c = true) ∧ (∀ c ∈ after, isBlank c = true) ∧
    m = '{' :: '{' :: (before ++ (name.text ++ (after ++ ['}', '}'])))

theorem dropWord_eq_some {word cs rest : List Char} : dropWord word cs = some rest ↔ cs = word ++ rest := by
  induction word generalizing cs with
  | nil => simp [dropWord]
  | cons w ws ih =>
    cases cs with
    | nil => simp [dropWord]
    | cons c cs =>
      unfold dropWord
      split
      · rename_i same
        rw [ih, same, List.cons_append, List.cons_inj_right]
      · rename_i other
        simp [Ne.symm other]

theorem dropWhile_append_all {p : Char → Bool} {before rest : List Char} (all : ∀ c ∈ before, p c = true)
    (stop : ∀ c ∈ rest.head?, p c = false) : (before ++ rest).dropWhile p = rest := by
  induction before with
  | nil =>
    cases rest with
    | nil => rfl
    | cons c rest => rw [List.nil_append, List.dropWhile_cons_of_neg (by simp [stop c (by simp)])]
  | cons b before ih =>
    rw [List.cons_append, List.dropWhile_cons_of_pos (all b List.mem_cons_self)]
    exact ih fun c member => all c (List.mem_cons_of_mem b member)

section Names

variable (name : Name)

theorem Name.head_plain (rest : List Char) : ∀ c ∈ (name.text ++ rest).head?, isBlank c = false := by
  intro c head
  obtain ⟨first, others, text⟩ := List.exists_cons_of_ne_nil name.nonempty
  have plain := (name.plain first (by simp [text])).1
  rw [text] at head
  obtain rfl : first = c := by simpa using head
  exact plain

theorem placeholder_eq_some {cs rest : List Char} : placeholder name cs = some rest ↔ ∃ m, Spelled name m ∧ cs = m ++ rest := by
  simp only [placeholder, Option.bind_eq_bind, Option.bind_eq_some_iff, dropWord_eq_some]
  constructor
  · rintro ⟨inner, rfl, after, word, closing⟩
    refine ⟨_, ⟨inner.takeWhile isBlank, after.takeWhile isBlank, fun c member => List.mem_takeWhile_imp member,
      fun c member => List.mem_takeWhile_imp member, rfl⟩, ?_⟩
    have opened : inner = inner.takeWhile isBlank ++ (name.text ++ after) := by rw [← word, List.takeWhile_append_dropWhile]
    have closed : after = after.takeWhile isBlank ++ (['}', '}'] ++ rest) := by rw [← closing, List.takeWhile_append_dropWhile]
    conv => lhs; rw [opened, closed]
    simp
  · rintro ⟨m, ⟨before, after, blanks, blanksAfter, rfl⟩, rfl⟩
    refine ⟨before ++ (name.text ++ (after ++ ['}', '}'] ++ rest)), by simp, after ++ ['}', '}'] ++ rest, ?_, ?_⟩
    · exact dropWhile_append_all blanks (name.head_plain _)
    · rw [List.append_assoc]
      exact dropWhile_append_all blanksAfter (by simp [isBlank])

theorem Spelled.cons {name : Name} {m : List Char} (spelled : Spelled name m) :
    ∃ c inside, m = '{' :: '{' :: c :: inside ∧ ∀ x ∈ c :: inside, x ≠ '{' := by
  obtain ⟨before, after, blanks, blanksAfter, rfl⟩ := spelled
  have inner : ∀ x ∈ before ++ (name.text ++ (after ++ ['}', '}'])), x ≠ '{' := by
    intro x member
    simp only [List.mem_append, List.mem_cons, List.not_mem_nil, or_false] at member
    rcases member with blank | named | blank | close | close
    · rintro rfl
      exact absurd (blanks _ blank) (by decide)
    · exact (name.plain x named).2.1
    · rintro rfl
      exact absurd (blanksAfter _ blank) (by decide)
    · simp [close]
    · simp [close]
  cases shape : before ++ (name.text ++ (after ++ ['}', '}'])) with
  | nil => simp at shape
  | cons c inside => exact ⟨c, inside, rfl, shape ▸ inner⟩

theorem placeholder_spelled {name : Name} {m : List Char} (spelled : Spelled name m) (rest : List Char) :
    placeholder name (m ++ rest) = some rest := (placeholder_eq_some name).mpr ⟨m, spelled, rfl⟩

/-- A placeholder has one name. -/
theorem Spelled.name_eq {first second : Name} {m rest : List Char} (spelled : Spelled first m)
    (found : (placeholder second (m ++ rest)).isSome) : second.text = first.text := by
  obtain ⟨rest', found⟩ := Option.isSome_iff_exists.mp found
  obtain ⟨m', ⟨before', after', blanks', blanksAfter', rfl⟩, same⟩ := (placeholder_eq_some second).mp found
  obtain ⟨before, after, blanks, blanksAfter, rfl⟩ := spelled
  simp only [List.cons_append, List.append_assoc, List.cons.injEq, true_and] at same
  have inner := congrArg (List.dropWhile isBlank) same
  rw [dropWhile_append_all blanks (first.head_plain _), dropWhile_append_all blanks' (second.head_plain _)] at inner
  -- the name ends at the first blank or brace
  have ends : ∀ (name : Name) (after rest : List Char), (∀ c ∈ after, isBlank c = true) →
      (name.text ++ (after ++ '}' :: '}' :: rest)).takeWhile (fun c => !isBlank c && c != '}') = name.text := by
    intro name after rest blanks
    have plain : ∀ c ∈ name.text, (!isBlank c && c != '}') = true := by
      intro c member
      have := name.plain c member
      simp [this.1, this.2.2]
    rw [List.takeWhile_append_of_pos plain]
    cases after with
    | nil => simp
    | cons b after => simp [blanks b List.mem_cons_self]
  have named := congrArg (List.takeWhile fun c => !isBlank c && c != '}') inner
  simp only [List.nil_append] at named
  rw [ends first after rest blanksAfter, ends second after' rest' blanksAfter'] at named
  exact named.symm

end Names

/-! ### Scanning -/

section Scan

variable {name : Name} {filling : List Char → List Char}

theorem replaceFrom_eq (left : Nat) (cs : List Char) : replaceFrom name filling left cs = replaceAll name filling (cs.drop left) := by
  induction left generalizing cs with
  | zero => rfl
  | succ left ih =>
    cases cs with
    | nil => rfl
    | cons c cs => exact ih cs

@[simp] theorem replaceAll_nil : replaceAll name filling [] = [] := rfl

theorem replaceAll_cons {c : Char} {cs : List Char} (plain : placeholder name (c :: cs) = none) :
    replaceAll name filling (c :: cs) = c :: replaceAll name filling cs := by
  unfold replaceAll
  conv => lhs; unfold replaceFrom
  rw [plain]

theorem replaceAll_placeholder {m : List Char} (spelled : Spelled name m) (rest : List Char) :
    replaceAll name filling (m ++ rest) = filling m ++ replaceAll name filling rest := by
  obtain ⟨c, inside, rfl, _⟩ := spelled.cons
  have found := placeholder_spelled spelled rest
  unfold replaceAll
  simp only [List.cons_append] at found ⊢
  conv => lhs; unfold replaceFrom
  rw [found]
  simp only [replaceFrom_eq]
  have length : ('{' :: c :: (inside ++ rest)).length - rest.length = inside.length + 2 := by simp; omega
  have whole : ('{' :: c :: (inside ++ rest)).length + 1 - rest.length = inside.length + 3 := by simp; omega
  rw [length, whole]
  simp [replaceAll]

theorem marks_step (c : Char) (cs : List Char) :
    marks name (c :: cs) = (if (placeholder name (c :: cs)).isSome then 1 else 0) + marks name cs := rfl

theorem marks_cons {c : Char} {cs : List Char} (plain : placeholder name (c :: cs) = none) : marks name (c :: cs) = marks name cs := by
  simp [marks, plain]

theorem placeholder_isSome_brace {c : Char} {cs : List Char} (found : (placeholder name (c :: cs)).isSome) :
    c = '{' ∧ cs.head? = some '{' := by
  obtain ⟨rest, found⟩ := Option.isSome_iff_exists.mp found
  obtain ⟨m, spelled, same⟩ := (placeholder_eq_some name).mp found
  obtain ⟨d, inside, rfl, _⟩ := spelled.cons
  simp only [List.cons_append, List.cons.injEq] at same
  exact ⟨same.1, by simp [same.2]⟩

/-- No placeholder starts where there is no brace. -/
theorem marks_append_of_plain (name : Name) {x : List Char} (plain : ∀ c ∈ x, c ≠ '{') (rest : List Char) :
    marks name (x ++ rest) = marks name rest := by
  induction x with
  | nil => rfl
  | cons c x ih =>
    obtain ⟨first, others⟩ := List.forall_mem_cons.mp plain
    have none_here : placeholder name (c :: (x ++ rest)) = none := by
      rw [← Option.not_isSome_iff_eq_none]
      exact fun found => first (placeholder_isSome_brace found).1
    rw [List.cons_append, marks_cons none_here, ih others]

theorem marks_le_append (name : Name) (x rest : List Char) : marks name rest ≤ marks name (x ++ rest) := by
  induction x with
  | nil => exact le_refl _
  | cons c x ih =>
    rw [List.cons_append, marks_step]
    omega

/-- A placeholder is counted once, at its first brace, and where the name is asked for. -/
theorem marks_spelled {other : Name} {m : List Char} (spelled : Spelled other m) (rest : List Char) :
    marks name (m ++ rest) = (if (placeholder name (m ++ rest)).isSome then 1 else 0) + marks name rest := by
  obtain ⟨c, inside, rfl, plain⟩ := spelled.cons
  have second : placeholder name ('{' :: c :: (inside ++ rest)) = none := by
    rw [← Option.not_isSome_iff_eq_none]
    intro found
    have := (placeholder_isSome_brace found).2
    exact plain c List.mem_cons_self (by simpa using this)
  have others := marks_append_of_plain name plain rest
  simp only [List.cons_append] at others ⊢
  rw [marks_step, marks_cons second, others]

theorem marks_self {m : List Char} (spelled : Spelled name m) (rest : List Char) :
    marks name (m ++ rest) = 1 + marks name rest := by
  rw [marks_spelled spelled, placeholder_spelled spelled, Option.isSome_some, if_pos rfl]

theorem marks_other {other : Name} {m : List Char} (spelled : Spelled other m) (distinct : name.text ≠ other.text)
    (rest : List Char) : marks name (m ++ rest) = marks name rest := by
  have none_here : ¬ (placeholder name (m ++ rest)).isSome := fun found => distinct (spelled.name_eq found)
  rw [marks_spelled spelled, if_neg none_here, Nat.zero_add]

/-- Where no placeholder starts in a part of the text, the part stays. -/
theorem replaceAll_append_of_marks {x rest : List Char} (none_new : marks name (x ++ rest) = marks name rest) :
    replaceAll name filling (x ++ rest) = x ++ replaceAll name filling rest := by
  induction x with
  | nil => rfl
  | cons c x ih =>
    rw [List.cons_append] at none_new ⊢
    have below := marks_le_append name x rest
    rw [marks_step] at none_new
    split at none_new
    · omega
    · rename_i plain
      rw [replaceAll_cons (Option.not_isSome_iff_eq_none.mp plain), ih (by omega)]
      rfl

end Scan

/-! ### Two names -/

/-- A text is read off as characters and placeholders. -/
theorem scan_induction (first second : Name) {motive : List Char → Prop} (nil : motive [])
    (plain : ∀ c cs, placeholder first (c :: cs) = none → placeholder second (c :: cs) = none → motive cs → motive (c :: cs))
    (one : ∀ m rest, Spelled first m → motive rest → motive (m ++ rest))
    (two : ∀ m rest, Spelled second m → motive rest → motive (m ++ rest)) (cs : List Char) : motive cs := by
  induction size : cs.length using Nat.strong_induction_on generalizing cs with
  | _ n ih =>
    have shorter : ∀ {name : Name} {m rest : List Char}, Spelled name m → cs = m ++ rest → motive rest := by
      intro name m rest spelled whole
      obtain ⟨c, inside, rfl, _⟩ := spelled.cons
      exact ih rest.length (by rw [← size, whole]; simp; omega) rest rfl
    cases cs with
    | nil => exact nil
    | cons c cs =>
      cases foundFirst : placeholder first (c :: cs) with
      | some rest =>
        obtain ⟨m, spelled, whole⟩ := (placeholder_eq_some first).mp foundFirst
        rw [whole]
        exact one m rest spelled (shorter spelled whole)
      | none =>
        cases foundSecond : placeholder second (c :: cs) with
        | some rest =>
          obtain ⟨m, spelled, whole⟩ := (placeholder_eq_some second).mp foundSecond
          rw [whole]
          exact two m rest spelled (shorter spelled whole)
        | none => exact plain c cs foundFirst foundSecond (ih cs.length (by simpa using size ▸ Nat.lt_succ_self _) cs rfl)

section Count

variable {name : Name} {two : List Char}

/-- `scan_induction` for one name. -/
theorem scan_one (name : Name) {motive : List Char → Prop} (nil : motive [])
    (plain : ∀ c cs, placeholder name (c :: cs) = none → motive cs → motive (c :: cs))
    (mark : ∀ m rest, Spelled name m → motive rest → motive (m ++ rest)) (cs : List Char) : motive cs :=
  scan_induction name name nil (fun c cs here _ => plain c cs here) mark mark cs

theorem Spelled.braces {name : Name} {m : List Char} (spelled : Spelled name m) : m.count '{' = 2 := by
  obtain ⟨c, inside, rfl, plain⟩ := spelled.cons
  have none_inside : (c :: inside).count '{' = 0 := List.count_eq_zero.mpr fun brace => plain '{' brace rfl
  rw [List.count_cons_self, List.count_cons_self, none_inside]

theorem count_replaceAll (plain : two.count '{' = 0) (cs : List Char) :
    (replaceAll name (fun _ => two) cs).count '{' + 2 * marks name cs = cs.count '{' := by
  induction cs using scan_one name with
  | nil => rfl
  | plain c cs here ih =>
    rw [replaceAll_cons here, marks_cons here, List.count_cons, List.count_cons]
    omega
  | mark m rest spelled ih =>
    rw [replaceAll_placeholder spelled, marks_self spelled, List.count_append, List.count_append, plain, spelled.braces]
    omega

theorem count_replaceAll_le {x : Char} (absent : two.count x = 0) (cs : List Char) :
    (replaceAll name (fun _ => two) cs).count x ≤ cs.count x := by
  induction cs using scan_one name with
  | nil => exact le_refl _
  | plain c cs here ih =>
    rw [replaceAll_cons here, List.count_cons, List.count_cons]
    omega
  | mark m rest spelled ih =>
    rw [replaceAll_placeholder spelled, List.count_append, List.count_append, absent]
    omega

theorem replaceAll_congr {filling filling' : List Char → List Char} (same : ∀ m, Spelled name m → filling m = filling' m) (cs : List Char) :
    replaceAll name filling cs = replaceAll name filling' cs := by
  induction cs using scan_one name with
  | nil => rfl
  | plain c cs here ih => rw [replaceAll_cons here, replaceAll_cons here, ih]
  | mark m rest spelled ih => rw [replaceAll_placeholder spelled, replaceAll_placeholder spelled, same m spelled, ih]

end Count

section Both

variable {first second : Name} {one two : List Char}

theorem fillFrom_eq (left : Nat) (cs : List Char) :
    fillFrom first second one two left cs = fillBoth first second one two (cs.drop left) := by
  induction left generalizing cs with
  | zero => rfl
  | succ left ih =>
    cases cs with
    | nil => rfl
    | cons c cs => exact ih cs

@[simp] theorem fillBoth_nil : fillBoth first second one two [] = [] := rfl

theorem fillBoth_cons {c : Char} {cs : List Char} (plain : placeholder first (c :: cs) = none)
    (plain' : placeholder second (c :: cs) = none) : fillBoth first second one two (c :: cs) = c :: fillBoth first second one two cs := by
  unfold fillBoth
  conv => lhs; unfold fillFrom
  rw [plain, plain']

theorem fillBoth_first {m : List Char} (spelled : Spelled first m) (rest : List Char) :
    fillBoth first second one two (m ++ rest) = one ++ fillBoth first second one two rest := by
  obtain ⟨c, inside, rfl, _⟩ := spelled.cons
  have found := placeholder_spelled spelled rest
  unfold fillBoth
  simp only [List.cons_append] at found ⊢
  conv => lhs; unfold fillFrom
  rw [found]
  have length : ('{' :: c :: (inside ++ rest)).length - rest.length = inside.length + 2 := by simp; omega
  simp only [fillFrom_eq, length]
  simp [fillBoth]

variable (distinct : first.text ≠ second.text)

include distinct

theorem fillBoth_second {m : List Char} (spelled : Spelled second m) (rest : List Char) :
    fillBoth first second one two (m ++ rest) = two ++ fillBoth first second one two rest := by
  have other : placeholder first (m ++ rest) = none := by
    rw [← Option.not_isSome_iff_eq_none]
    exact fun found => distinct (spelled.name_eq found)
  obtain ⟨c, inside, rfl, _⟩ := spelled.cons
  have found := placeholder_spelled spelled rest
  unfold fillBoth
  simp only [List.cons_append] at found other ⊢
  conv => lhs; unfold fillFrom
  rw [found, other]
  have length : ('{' :: c :: (inside ++ rest)).length - rest.length = inside.length + 2 := by simp; omega
  simp only [fillFrom_eq, length]
  simp [fillBoth]

/-- The other name's placeholders stay. -/
theorem replaceAll_second {filling : List Char → List Char} {m : List Char} (spelled : Spelled second m) (rest : List Char) :
    replaceAll first filling (m ++ rest) = m ++ replaceAll first filling rest :=
  replaceAll_append_of_marks (marks_other spelled distinct rest)

/-- Without placeholders of the first name only the second pass does anything. -/
theorem fillBoth_of_none {filling : List Char → List Char} (cs : List Char) (absent : marks first cs = 0) :
    replaceAll first filling cs = cs ∧ fillBoth first second one two cs = replaceAll second (fun _ => two) cs := by
  induction cs using scan_induction first second with
  | nil => exact ⟨rfl, rfl⟩
  | plain c cs none_first none_second ih =>
    rw [marks_cons none_first] at absent
    obtain ⟨kept, same⟩ := ih absent
    rw [replaceAll_cons none_first, fillBoth_cons none_first none_second, replaceAll_cons none_second, kept, same]
    exact ⟨rfl, rfl⟩
  | one m rest spelled _ =>
    rw [marks_self spelled] at absent
    omega
  | two m rest spelled ih =>
    rw [marks_other spelled distinct] at absent
    obtain ⟨kept, same⟩ := ih absent
    rw [replaceAll_second distinct spelled, fillBoth_second distinct spelled, replaceAll_placeholder spelled, kept, same]
    exact ⟨rfl, rfl⟩

/-- Filling the first name keeps the placeholders of the second. Where it makes no new ones, the passes do what one pass does. -/
theorem marks_inserted (cs : List Char) :
    marks second cs ≤ marks second (replaceAll first (fun _ => one) cs) ∧
      (marks second (replaceAll first (fun _ => one) cs) = marks second cs →
        replaceAll second (fun _ => two) (replaceAll first (fun _ => one) cs) = fillBoth first second one two cs) := by
  induction cs using scan_induction first second with
  | nil => exact ⟨le_refl _, fun _ => rfl⟩
  | plain c cs none_first none_second ih =>
    obtain ⟨kept, same⟩ := ih
    rw [replaceAll_cons none_first, marks_cons none_second, fillBoth_cons none_first none_second]
    have below := marks_le_append second [c] (replaceAll first (fun _ => one) cs)
    rw [List.singleton_append] at below
    refine ⟨le_trans kept below, fun equal => ?_⟩
    have step := @replaceAll_append_of_marks second (fun _ => two) [c] (replaceAll first (fun _ => one) cs)
      (by rw [List.singleton_append]; omega)
    rw [List.singleton_append] at step
    rw [step, same (by omega)]
    rfl
  | one m rest spelled ih =>
    obtain ⟨kept, same⟩ := ih
    rw [replaceAll_placeholder spelled, marks_other spelled (Ne.symm distinct), fillBoth_first spelled]
    have below := marks_le_append second one (replaceAll first (fun _ => one) rest)
    refine ⟨le_trans kept below, fun equal => ?_⟩
    rw [replaceAll_append_of_marks (by omega), same (by omega)]
  | two m rest spelled ih =>
    obtain ⟨kept, same⟩ := ih
    rw [replaceAll_second distinct spelled, marks_self spelled, marks_self spelled, fillBoth_second distinct spelled]
    refine ⟨by omega, fun equal => ?_⟩
    rw [replaceAll_placeholder spelled, same (by omega)]

/-! What the passes do is told apart by counting characters: braces for the placeholders that a
filling makes, and another mark for a filling that is itself rewritten. -/

theorem count_fillBoth (plain : two.count '{' = 0) (cs : List Char) :
    (fillBoth first second one two cs).count '{' + 2 * marks second cs = (replaceAll first (fun _ => one) cs).count '{' := by
  induction cs using scan_induction first second with
  | nil => rfl
  | plain c cs none_first none_second ih =>
    rw [fillBoth_cons none_first none_second, marks_cons none_second, replaceAll_cons none_first, List.count_cons, List.count_cons]
    omega
  | one m rest spelled ih =>
    rw [fillBoth_first spelled, marks_other spelled (Ne.symm distinct), replaceAll_placeholder spelled, List.count_append,
      List.count_append]
    omega
  | two m rest spelled ih =>
    rw [fillBoth_second distinct spelled, marks_self spelled, replaceAll_second distinct spelled, List.count_append,
      List.count_append, plain, spelled.braces]
    omega

variable {x : Char} {filling : List Char → List Char}

/-- A filling that loses a character loses it at every placeholder. -/
theorem count_first_le (absent : two.count x = 0) (unmarked : ∀ m, Spelled second m → m.count x = 0)
    (fewer : ∀ m, Spelled first m → (filling m).count x < one.count x) (cs : List Char) :
    (replaceAll first filling cs).count x + marks first cs ≤ (fillBoth first second one two cs).count x := by
  induction cs using scan_induction first second with
  | nil => exact le_refl _
  | plain c cs none_first none_second ih =>
    rw [replaceAll_cons none_first, fillBoth_cons none_first none_second, marks_cons none_first, List.count_cons, List.count_cons]
    omega
  | one m rest spelled ih =>
    have less := fewer m spelled
    rw [replaceAll_placeholder spelled, fillBoth_first spelled, marks_self spelled, List.count_append, List.count_append]
    omega
  | two m rest spelled ih =>
    rw [replaceAll_second distinct spelled, fillBoth_second distinct spelled, marks_other spelled distinct, List.count_append,
      List.count_append, absent, unmarked m spelled]
    omega

/-- Two passes fill what one pass fills exactly where nothing is to be filled with the first text, or the first text is
filled in as it is and makes no placeholder that was not there. -/
theorem replaceAll_replaceAll_eq_iff (absent : two.count x = 0) (plain : two.count '{' = 0)
    (unmarked : ∀ m, Spelled second m → m.count x = 0)
    (either : (∀ m, Spelled first m → filling m = one) ∨ ∀ m, Spelled first m → (filling m).count x < one.count x) (cs : List Char) :
    replaceAll second (fun _ => two) (replaceAll first filling cs) = fillBoth first second one two cs ↔
      marks first cs = 0 ∨ (∀ m, Spelled first m → filling m = one) ∧
        marks second (replaceAll first (fun _ => one) cs) = marks second cs := by
  constructor
  · intro same
    by_cases none_first : marks first cs = 0
    · exact .inl none_first
    · refine .inr ?_
      rcases either with whole | fewer
      · refine ⟨whole, ?_⟩
        rw [replaceAll_congr whole] at same
        have braces := @count_replaceAll second two plain (replaceAll first (fun _ => one) cs)
        have filled := @count_fillBoth first second one two distinct plain cs
        rw [same] at braces
        omega
      · have lost := count_first_le distinct absent unmarked fewer cs
        have kept := @count_replaceAll_le second two x absent (replaceAll first filling cs)
        rw [same] at kept
        omega
  · rintro (none_first | ⟨whole, none_new⟩)
    · obtain ⟨kept, same⟩ := @fillBoth_of_none first second one two distinct filling cs none_first
      rw [kept, same]
    · rw [replaceAll_congr whole]
      exact (marks_inserted distinct cs).2 none_new

end Both

end Cronova.Text
