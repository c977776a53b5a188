import Mathlib.Data.List.Infix

/-! Masking the occurrences of some words in a text, in one pass from left to right.

At each place the first of the words that starts there is replaced by a mask. Words do not contain the
mark the mask is made of, so the mask hides nothing of a later word and is part of none. The rules
for text in two parts say when the first part may be masked before the second is known.
-/

set_option autoImplicit false

namespace Cronova.Text

variable {A : Type} [DecidableEq A]

/-- The first of the words that the text starts with. -/
def firstMatch (words : List (List A)) (text : List A) : Option (List A) :=
  words.find? fun w => w ≠ [] ∧ w <+: text

/-- The number counts the characters of a word that are left. -/
def maskFrom (words : List (List A)) (mask : List A) : Nat → List A → List A
  | _, [] => []
  | left + 1, _ :: cs => maskFrom words mask left cs
  | 0, c :: cs =>
    match firstMatch words (c :: cs) with
    | none => c :: maskFrom words mask 0 cs
    | some w => mask ++ maskFrom words mask (w.length - 1) cs

def masked (words : List (List A)) (mask text : List A) : List A := maskFrom words mask 0 text

/-- What the text ends with of a word that goes on in the rest, when both are masked together. -/
def overhangFrom (words : List (List A)) (rest : List A) : Nat → List A → List A
  | _, [] => []
  | left + 1, _ :: cs => overhangFrom words rest left cs
  | 0, c :: cs =>
    match firstMatch words (c :: cs ++ rest) with
    | none => overhangFrom words rest 0 cs
    | some w => if w.length ≤ cs.length + 1 then overhangFrom words rest (w.length - 1) cs else c :: cs

def overhang (words : List (List A)) (text rest : List A) : List A := overhangFrom words rest 0 text

/-- No word occurs in the text. -/
def Clean (words : List (List A)) (text : List A) : Prop := ∀ w ∈ words, w ≠ [] → ¬ w <:+: text

section Match

variable {words : List (List A)} {mask : List A}

theorem firstMatch_some {text w : List A} (found : firstMatch words text = some w) : w ∈ words ∧ w ≠ [] ∧ w <+: text := by
  unfold firstMatch at found
  have holds := List.find?_some found
  exact ⟨List.mem_of_find?_eq_some found, by simpa using holds⟩

theorem firstMatch_none {text : List A} : firstMatch words text = none ↔ ∀ w ∈ words, w ≠ [] → ¬ w <+: text := by
  unfold firstMatch
  rw [List.find?_eq_none]
  simp

@[simp] theorem masked_nil : masked words mask [] = [] := rfl

theorem maskFrom_eq (left : Nat) (text : List A) : maskFrom words mask left text = masked words mask (text.drop left) := by
  induction left generalizing text with
  | zero => rfl
  | succ left ih =>
    cases text with
    | nil => rfl
    | cons c cs => exact ih cs

theorem masked_cons {c : A} {cs : List A} (plain : firstMatch words (c :: cs) = none) :
    masked words mask (c :: cs) = c :: masked words mask cs := by
  unfold masked
  conv => lhs; unfold maskFrom
  rw [plain]

theorem masked_append {w rest : List A} (found : firstMatch words (w ++ rest) = some w) :
    masked words mask (w ++ rest) = mask ++ masked words mask rest := by
  obtain ⟨_, nonempty, _⟩ := firstMatch_some found
  obtain ⟨c, cs, rfl⟩ := List.exists_cons_of_ne_nil nonempty
  unfold masked
  rw [List.cons_append] at found ⊢
  conv => lhs; unfold maskFrom
  rw [found]
  simp only [maskFrom_eq, List.length_cons, Nat.add_sub_cancel, List.drop_left]
  rfl

/-- A text is read off as characters and words. -/
theorem mask_induction (words : List (List A)) {motive : List A → Prop} (nil : motive [])
    (plain : ∀ c cs, firstMatch words (c :: cs) = none → motive cs → motive (c :: cs))
    (word : ∀ w rest, firstMatch words (w ++ rest) = some w → motive rest → motive (w ++ rest)) (text : List A) : motive text := by
  induction size : text.length using Nat.strong_induction_on generalizing text with
  | _ n ih =>
    cases text with
    | nil => exact nil
    | cons c cs =>
      cases found : firstMatch words (c :: cs) with
      | none => exact plain c cs found (ih cs.length (by simpa using size ▸ Nat.lt_succ_self _) cs rfl)
      | some w =>
        obtain ⟨_, nonempty, rest, whole⟩ := firstMatch_some found
        rw [← whole] at found size ⊢
        have positive := List.length_pos_iff.mpr nonempty
        exact word w rest found (ih rest.length (by rw [← size, List.length_append]; omega) rest rfl)

theorem masked_of_clean {text : List A} (clean : Clean words text) : masked words mask text = text := by
  induction text with
  | nil => rfl
  | cons c cs ih =>
    have plain : firstMatch words (c :: cs) = none :=
      firstMatch_none.mpr fun w member nonempty start => clean w member nonempty start.isInfix
    rw [masked_cons plain, ih fun w member nonempty inside => clean w member nonempty (inside.trans (List.suffix_cons c cs).isInfix)]

end Match

/-! ### Words without the mark of the mask -/

section Marked

variable {words : List (List A)} {mask : List A} {star : A}

omit [DecidableEq A] in
theorem eq_nil_of_prefix_mask {y rest : List A} (stars : ∀ c ∈ mask, c = star) (nonempty : mask ≠ []) (free : star ∉ y)
    (start : y <+: mask ++ rest) : y = [] := by
  cases y with
  | nil => rfl
  | cons c y =>
    obtain ⟨m, mask, rfl⟩ := List.exists_cons_of_ne_nil nonempty
    rw [List.cons_append, List.cons_prefix_cons] at start
    exact absurd (start.1.trans (stars m List.mem_cons_self)) (fun same => free (same ▸ List.mem_cons_self))

omit [DecidableEq A] in
theorem infix_of_mask_append {y rest : List A} (stars : ∀ c ∈ mask, c = star) (free : star ∉ y) (nonempty : y ≠ [])
    (inside : y <:+: mask ++ rest) : y <:+: rest := by
  induction mask with
  | nil => exact inside
  | cons m mask ih =>
    obtain ⟨first, others⟩ := List.forall_mem_cons.mp stars
    rcases List.infix_cons_iff.mp inside with start | later
    · exact absurd (eq_nil_of_prefix_mask stars (List.cons_ne_nil m mask) free start) nonempty
    · exact ih others later

theorem star_mem_masked {text : List A} (free : ∀ w ∈ words, star ∉ w) (member : star ∈ text) : star ∈ masked words mask text := by
  induction text using mask_induction words with
  | nil => exact member
  | plain c cs plain ih =>
    rw [masked_cons plain]
    rcases List.mem_cons.mp member with rfl | later
    · exact List.mem_cons_self
    · exact List.mem_cons_of_mem c (ih later)
  | word w rest found ih =>
    rw [masked_append found]
    rcases List.mem_append.mp member with inside | later
    · exact absurd inside (free w (firstMatch_some found).1)
    · exact List.mem_append_right mask (ih later)

omit [DecidableEq A] in
/-- A mark ends every word before it. -/
theorem prefix_of_star {x y rest : List A} (free : star ∉ y) (start : y <+: x ++ star :: rest) : y <+: x := by
  induction x generalizing y with
  | nil =>
    cases y with
    | nil => exact List.nil_prefix
    | cons c y =>
      rw [List.nil_append, List.cons_prefix_cons] at start
      exact absurd List.mem_cons_self (start.1 ▸ free)
  | cons d x ih =>
    cases y with
    | nil => exact List.nil_prefix
    | cons c y =>
      rw [List.cons_append, List.cons_prefix_cons] at start
      rw [List.cons_prefix_cons]
      exact ⟨start.1, ih (fun inside => free (List.mem_cons_of_mem c inside)) start.2⟩

theorem masked_clean_star (free : ∀ w ∈ words, star ∉ w) {x : List A} (clean : Clean words x) (rest : List A) :
    masked words mask (x ++ star :: rest) = x ++ star :: masked words mask rest := by
  induction x with
  | nil =>
    have plain : firstMatch words (star :: rest) = none := by
      rw [firstMatch_none]
      intro w member present start
      exact present (List.prefix_nil.mp (prefix_of_star (x := []) (free w member) start))
    exact masked_cons plain
  | cons c x ih =>
    have plain : firstMatch words (c :: (x ++ star :: rest)) = none := by
      rw [firstMatch_none]
      intro w member present start
      exact clean w member present (prefix_of_star (x := c :: x) (free w member) start).isInfix
    rw [List.cons_append, masked_cons plain, ih fun w member present inside => clean w member present (inside.trans (List.suffix_cons c x).isInfix)]
    rfl

/-- Marks stay as they are. -/
theorem masked_stars_append (free : ∀ w ∈ words, star ∉ w) {m : List A} (marks : ∀ c ∈ m, c = star) (rest : List A) :
    masked words mask (m ++ rest) = m ++ masked words mask rest := by
  induction m with
  | nil => rfl
  | cons c m ih =>
    obtain ⟨rfl, others⟩ := List.forall_mem_cons.mp marks
    have clean : Clean words ([] : List A) := fun w _ present inside => present (List.infix_nil.mp inside)
    have first : masked words mask ([] ++ c :: (m ++ rest)) = [] ++ c :: masked words mask (m ++ rest) :=
      masked_clean_star free clean (m ++ rest)
    rw [List.nil_append] at first
    rw [List.cons_append, first, ih others]
    rfl

variable (stars : ∀ c ∈ mask, c = star) (nonempty : mask ≠ [])

include stars nonempty

/-- What a masked text starts with, up to the first mask, the text starts with. -/
theorem prefix_of_masked {text y : List A} (free : star ∉ y) (start : y <+: masked words mask text) : y <+: text := by
  induction text using mask_induction words generalizing y with
  | nil => exact start
  | plain c cs plain ih =>
    rw [masked_cons plain] at start
    cases y with
    | nil => exact List.nil_prefix
    | cons d y =>
      rw [List.cons_prefix_cons] at start ⊢
      exact ⟨start.1, ih (fun inside => free (List.mem_cons_of_mem d inside)) start.2⟩
  | word w rest found _ =>
    rw [masked_append found] at start
    rw [eq_nil_of_prefix_mask stars nonempty free start]
    exact List.nil_prefix

/-- Only a mask makes a difference. -/
theorem masked_eq_or_star (text : List A) : masked words mask text = text ∨ star ∈ masked words mask text := by
  induction text using mask_induction words with
  | nil => exact .inl rfl
  | plain c cs plain ih =>
    rw [masked_cons plain]
    rcases ih with same | mem
    · exact .inl (by rw [same])
    · exact .inr (List.mem_cons_of_mem c mem)
  | word w rest found _ =>
    rw [masked_append found]
    obtain ⟨m, others, shape⟩ := List.exists_cons_of_ne_nil nonempty
    have first : m = star := stars m (by simp [shape])
    exact .inr (List.mem_append_left _ (by simp [shape, first]))

variable (free : ∀ w ∈ words, star ∉ w)

include free

/-- A masked text has none of the words. -/
theorem masked_clean (text : List A) : Clean words (masked words mask text) := by
  intro w member present inside
  induction text using mask_induction words with
  | nil => exact present (List.infix_nil.mp inside)
  | plain c cs plain ih =>
    rw [masked_cons plain] at inside
    rcases List.infix_cons_iff.mp inside with start | later
    · rw [← masked_cons plain] at start
      exact firstMatch_none.mp plain w member present (prefix_of_masked stars nonempty (free w member) start)
    · exact ih later
  | word v rest found ih =>
    rw [masked_append found] at inside
    exact ih (infix_of_mask_append stars (free w member) present inside)

end Marked

/-! ### A text in two parts -/

section Parts

variable {words : List (List A)} {mask rest : List A} {star : A}

theorem overhangFrom_eq (left : Nat) (text : List A) : overhangFrom words rest left text = overhang words (text.drop left) rest := by
  induction left generalizing text with
  | zero => rfl
  | succ left ih =>
    cases text with
    | nil => rfl
    | cons c cs => exact ih cs

theorem overhang_cons {c : A} {cs : List A} (plain : firstMatch words (c :: cs ++ rest) = none) :
    overhang words (c :: cs) rest = overhang words cs rest := by
  unfold overhang
  conv => lhs; unfold overhangFrom
  rw [plain]

theorem overhang_append {w cs : List A} (found : firstMatch words (w ++ cs ++ rest) = some w) :
    overhang words (w ++ cs) rest = overhang words cs rest := by
  obtain ⟨_, present, _⟩ := firstMatch_some found
  obtain ⟨c, w, rfl⟩ := List.exists_cons_of_ne_nil present
  unfold overhang
  simp only [List.cons_append] at found ⊢
  conv => lhs; unfold overhangFrom
  simp only [List.cons_append]
  rw [found]
  have fits : (c :: w).length ≤ (w ++ cs).length + 1 := by simp
  simp only [if_pos fits, overhangFrom_eq]
  simp [overhang]

theorem overhang_of_long {w : List A} {c : A} {cs : List A} (found : firstMatch words (c :: cs ++ rest) = some w)
    (long : cs.length + 1 < w.length) : overhang words (c :: cs) rest = c :: cs := by
  unfold overhang
  conv => lhs; unfold overhangFrom
  rw [found]
  exact if_neg (not_le.mpr long)

/-- The first part is read off as characters and words, up to a word that goes on in the rest. -/
theorem overhang_induction (words : List (List A)) (rest : List A) {motive : List A → Prop} (nil : motive [])
    (plain : ∀ c cs, firstMatch words (c :: cs ++ rest) = none → motive cs → motive (c :: cs))
    (word : ∀ w cs, firstMatch words (w ++ cs ++ rest) = some w → motive cs → motive (w ++ cs))
    (over_ : ∀ w c cs, firstMatch words (c :: cs ++ rest) = some w → cs.length + 1 < w.length → motive (c :: cs))
    (text : List A) : motive text := by
  induction size : text.length using Nat.strong_induction_on generalizing text with
  | _ n ih =>
    cases text with
    | nil => exact nil
    | cons c cs =>
      cases found : firstMatch words (c :: cs ++ rest) with
      | none => exact plain c cs found (ih cs.length (by simpa using size ▸ Nat.lt_succ_self _) cs rfl)
      | some w =>
        by_cases long : cs.length + 1 < w.length
        · exact over_ w c cs found long
        · obtain ⟨_, present, start⟩ := firstMatch_some found
          have inside : w <+: c :: cs :=
            List.prefix_of_prefix_length_le start (List.prefix_append (c :: cs) rest) (by simpa using long)
          obtain ⟨tail, whole⟩ := inside
          rw [← whole] at found size ⊢
          have positive := List.length_pos_iff.mpr present
          exact word w tail found (ih tail.length (by rw [← size, List.length_append]; omega) tail rfl)

/-- The overhang is what a longer word starts with. -/
theorem overhang_word (text : List A) : overhang words text rest = [] ∨
    ∃ w ∈ words, ∃ more, more ≠ [] ∧ w = overhang words text rest ++ more := by
  induction text using overhang_induction words rest with
  | nil => exact .inl rfl
  | plain c cs plain ih =>
    rw [overhang_cons plain]
    exact ih
  | word w cs found ih =>
    rw [overhang_append found]
    exact ih
  | over_ w c cs found long =>
    rw [overhang_of_long found long]
    obtain ⟨member, _, start⟩ := firstMatch_some found
    have begins : c :: cs <+: w := List.prefix_of_prefix_length_le (List.prefix_append (c :: cs) rest) start (by simp; omega)
    obtain ⟨more, rfl⟩ := begins
    refine .inr ⟨_, member, more, ?_, rfl⟩
    rintro rfl
    simp at long

theorem firstMatch_of_append {text w : List A} (found : firstMatch words (text ++ rest) = some w) (inside : w <+: text) :
    firstMatch words text = some w := by
  unfold firstMatch at found ⊢
  rw [List.find?_eq_some_iff_append] at found ⊢
  obtain ⟨holds, before, after, split, earlier⟩ := found
  have present : w ≠ [] := by
    simp only [decide_eq_true_eq] at holds
    exact holds.1
  refine ⟨by simp [present, inside], before, after, split, ?_⟩
  intro v member
  have other := earlier v member
  simp only [Bool.not_eq_true', decide_eq_false_iff_not, not_and] at other ⊢
  exact fun present start => other present (start.trans (List.prefix_append text rest))

theorem firstMatch_none_of_append {text : List A} (none_found : firstMatch words (text ++ rest) = none) :
    firstMatch words text = none := by
  rw [firstMatch_none] at none_found ⊢
  exact fun w member present start => none_found w member present (start.trans (List.prefix_append text rest))

/-- Whatever is cut off in front, the masking of the rest starts after this text. -/
def Quiet (words : List (List A)) (mask settled rest : List A) : Prop :=
  ∀ cut left, settled = cut ++ left → masked words mask (left ++ rest) = left ++ masked words mask rest

theorem Quiet.cons {c : A} {settled : List A} (quiet : Quiet words mask settled rest)
    (plain : firstMatch words (c :: (settled ++ rest)) = none) : Quiet words mask (c :: settled) rest := by
  intro cut left split
  cases cut with
  | nil =>
    obtain rfl : c :: settled = left := split
    rw [List.cons_append, masked_cons plain, quiet [] settled rfl]
    rfl
  | cons d cut =>
    rw [List.cons_append, List.cons.injEq] at split
    exact quiet cut left split.2

theorem Quiet.stars (free : ∀ w ∈ words, star ∉ w) {m settled : List A} (marks : ∀ c ∈ m, c = star)
    (quiet : Quiet words mask settled rest) : Quiet words mask (m ++ settled) rest := by
  induction m with
  | nil => exact quiet
  | cons c m ih =>
    obtain ⟨rfl, others⟩ := List.forall_mem_cons.mp marks
    refine (ih others).cons (firstMatch_none.mpr fun w member present start => present ?_)
    exact List.prefix_nil.mp (prefix_of_star (x := []) (free w member) start)

/-- Where the overhang has no word in it, the first part can be masked by itself: it ends with the overhang as it is, and
before that with what it is masked to together with the rest. -/
theorem masked_split (stars : ∀ c ∈ mask, c = star) (nonempty : mask ≠ []) (free : ∀ w ∈ words, star ∉ w) (text : List A)
    (clean : Clean words (overhang words text rest)) :
    ∃ settled, masked words mask text = settled ++ overhang words text rest ∧
      masked words mask (text ++ rest) = settled ++ masked words mask (overhang words text rest ++ rest) ∧
        Quiet words mask settled (overhang words text rest ++ rest) ∧
          ∀ y, star ∉ y → y <+: settled ++ (overhang words text rest ++ rest) → y <+: text ++ rest := by
  have quiet_nil : ∀ rest : List A, Quiet words mask [] rest := by
    intro rest cut left split
    obtain ⟨rfl, rfl⟩ := List.append_eq_nil_iff.mp split.symm
    rfl
  induction text using overhang_induction words rest with
  | nil => exact ⟨[], rfl, rfl, quiet_nil _, fun y _ start => start⟩
  | plain c cs plain ih =>
    rw [overhang_cons plain] at clean ⊢
    obtain ⟨settled, first, whole, quiet, begins⟩ := ih clean
    have kept : firstMatch words (c :: (settled ++ (overhang words cs rest ++ rest))) = none := by
      rw [firstMatch_none] at plain ⊢
      intro w member present start
      obtain ⟨d, w, rfl⟩ := List.exists_cons_of_ne_nil present
      rw [List.cons_prefix_cons] at start
      have later := begins w (fun inside => free _ member (List.mem_cons_of_mem d inside)) start.2
      exact plain _ member present (by rw [List.cons_append, List.cons_prefix_cons]; exact ⟨start.1, later⟩)
    refine ⟨c :: settled, ?_, ?_, quiet.cons kept, ?_⟩
    · rw [masked_cons (firstMatch_none_of_append plain), first]
      rfl
    · calc masked words mask (c :: cs ++ rest) = c :: masked words mask (cs ++ rest) := masked_cons plain
        _ = _ := by rw [whole]; rfl
    · intro y apart start
      cases y with
      | nil => exact List.nil_prefix
      | cons d y =>
        rw [List.cons_append, List.cons_prefix_cons] at start ⊢
        exact ⟨start.1, begins y (fun inside => apart (List.mem_cons_of_mem d inside)) start.2⟩
  | word w cs found ih =>
    rw [overhang_append found] at clean ⊢
    obtain ⟨settled, first, whole, quiet, begins⟩ := ih clean
    refine ⟨mask ++ settled, ?_, ?_, Quiet.stars free stars quiet, ?_⟩
    · rw [masked_append (firstMatch_of_append found (List.prefix_append w cs)), first, List.append_assoc]
    · rw [List.append_assoc] at found ⊢
      rw [masked_append found, whole, List.append_assoc]
    · intro y apart start
      rw [List.append_assoc] at start
      rw [eq_nil_of_prefix_mask stars nonempty apart start]
      exact List.nil_prefix
  | over_ w c cs found long =>
    rw [overhang_of_long found long] at clean ⊢
    exact ⟨[], masked_of_clean clean, rfl, quiet_nil _, fun y _ start => start⟩

/-- The first part may be masked, all but its end given away, and the end masked again with the rest. -/
theorem masked_flush (stars : ∀ c ∈ mask, c = star) (nonempty : mask ≠ []) (free : ∀ w ∈ words, star ∉ w) (text : List A)
    (clean : Clean words (overhang words text rest)) {keep : Nat} (enough : (overhang words text rest).length ≤ keep) :
    (masked words mask text).take ((masked words mask text).length - keep) ++
      masked words mask ((masked words mask text).drop ((masked words mask text).length - keep) ++ rest) =
        masked words mask (text ++ rest) := by
  obtain ⟨settled, first, whole, quiet, _⟩ := masked_split stars nonempty free text clean
  have within : (masked words mask text).length - keep ≤ settled.length := by
    rw [first, List.length_append]
    omega
  rw [whole]
  generalize (masked words mask text).length - keep = n at within ⊢
  rw [first, List.take_append_of_le_length within, List.drop_append_of_le_length within, List.append_assoc,
    quiet (settled.take n) (settled.drop n) (List.take_append_drop n settled).symm, ← List.append_assoc, List.take_append_drop]

end Parts

/-! ### Words in words -/

section Nested

variable {words : List (List A)} {mask : List A}

/-- A text with a word has a mask, followed by less than the text has. -/
theorem masked_of_dirty {text : List A} (dirty : ¬ Clean words text) :
    ∃ before after, masked words mask text = before ++ mask ++ after ∧ after.length < text.length := by
  induction text using mask_induction words with
  | nil => exact absurd (fun w _ present inside => present (List.infix_nil.mp inside)) dirty
  | plain c cs plain ih =>
    have later : ¬ Clean words cs := by
      intro clean
      refine dirty fun w member present inside => ?_
      rcases List.infix_cons_iff.mp inside with start | later
      · exact firstMatch_none.mp plain w member present start
      · exact clean w member present later
    obtain ⟨before, after, split, shorter⟩ := ih later
    refine ⟨c :: before, after, ?_, by simp; omega⟩
    rw [masked_cons plain, split]
    rfl
  | word w rest found ih =>
    have present := List.length_pos_iff.mpr (firstMatch_some found).2.1
    rw [masked_append found]
    by_cases clean : Clean words rest
    · refine ⟨[], rest, ?_, by rw [List.length_append]; omega⟩
      rw [masked_of_clean clean]
      rfl
    · obtain ⟨before, after, split, shorter⟩ := ih clean
      refine ⟨mask ++ before, after, ?_, by rw [List.length_append]; omega⟩
      rw [split]
      simp only [List.append_assoc]

/-- A character that no word has stays at the end. -/
theorem masked_concat {stop : A} (free : ∀ w ∈ words, stop ∉ w) (text : List A) :
    masked words mask (text ++ [stop]) = masked words mask text ++ [stop] := by
  have bare : ∀ {c : A} {cs : List A}, firstMatch words (c :: cs) = none → firstMatch words (c :: (cs ++ [stop])) = none := by
    intro c cs plain
    rw [firstMatch_none] at plain ⊢
    exact fun w member present start => plain w member present (prefix_of_star (x := c :: cs) (free w member) start)
  have word_kept : ∀ {w rest : List A}, firstMatch words (w ++ rest) = some w → firstMatch words (w ++ (rest ++ [stop])) = some w := by
    intro w rest found
    cases again : firstMatch words (w ++ (rest ++ [stop])) with
    | none =>
      rw [← List.append_assoc] at again
      rw [firstMatch_none_of_append again] at found
      cases found
    | some v =>
      obtain ⟨member, _, start⟩ := firstMatch_some again
      rw [← List.append_assoc] at again start
      rw [firstMatch_of_append again (prefix_of_star (free v member) start)] at found
      exact found
  induction text using mask_induction words with
  | nil =>
    have plain : firstMatch words [stop] = none :=
      firstMatch_none.mpr fun w member present start => present (List.prefix_nil.mp (prefix_of_star (x := []) (free w member) start))
    exact masked_cons plain
  | plain c cs plain ih => rw [List.cons_append, masked_cons (bare plain), masked_cons plain, ih, List.cons_append]
  | word w rest found ih => rw [List.append_assoc, masked_append (word_kept found), masked_append found, ih, List.append_assoc]

/-- Where longer words come first, a word is masked as a whole. -/
theorem firstMatch_longest {w : List A} {stop : A} {rest : List A} (longest : words.Pairwise fun v w => w.length ≤ v.length)
    (free : ∀ w ∈ words, stop ∉ w) (member : w ∈ words) (present : w ≠ []) : firstMatch words (w ++ stop :: rest) = some w := by
  cases found : firstMatch words (w ++ stop :: rest) with
  | none => exact absurd (List.prefix_append w (stop :: rest)) (firstMatch_none.mp found w member present)
  | some v =>
    obtain ⟨listed, _, start⟩ := firstMatch_some found
    have begins : v <+: w := prefix_of_star (free v listed) start
    unfold firstMatch at found
    rw [List.find?_eq_some_iff_append] at found
    obtain ⟨_, before, after, split, earlier⟩ := found
    have long : w.length ≤ v.length := by
      rw [split] at member longest
      rcases List.mem_append.mp member with first | later
      · exact absurd (earlier w first) (by simp [present])
      · rcases List.mem_cons.mp later with same | later
        · rw [same]
        · exact (List.pairwise_cons.mp (List.pairwise_append.mp longest).2.1).1 w later
    rw [begins.eq_of_length (le_antisymm begins.length_le long)]

theorem masked_ne_nil (nonempty : mask ≠ []) {text : List A} (present : text ≠ []) : masked words mask text ≠ [] := by
  induction text using mask_induction words with
  | nil => exact absurd rfl present
  | plain c cs plain _ =>
    rw [masked_cons plain]
    exact List.cons_ne_nil c _
  | word w rest found _ =>
    rw [masked_append found]
    exact List.append_ne_nil_of_left_ne_nil nonempty _

theorem mem_masked {text : List A} {c : A} (member : c ∈ masked words mask text) : c ∈ text ∨ c ∈ mask := by
  induction text using mask_induction words with
  | nil => exact .inl member
  | plain d cs plain ih =>
    rw [masked_cons plain] at member
    rcases List.mem_cons.mp member with rfl | later
    · exact .inl List.mem_cons_self
    · exact (ih later).imp_left (List.mem_cons_of_mem d)
  | word w rest found ih =>
    rw [masked_append found] at member
    rcases List.mem_append.mp member with hidden | later
    · exact .inr hidden
    · exact (ih later).imp_left (List.mem_append_right w)

end Nested

end Cronova.Text
