import Cronova.Datetmpl.Shift

/-! The grammar of date offsets, and that `Shift` reads exactly its texts, whatever the instant.

The documented grammar knows spaces and tabs. `Shift` trims white space of every kind, but lets a unit
end at a space, a tab or a sign only; so other white space passes everywhere except between a
unit and a further offset.
-/

set_option autoImplicit false

namespace Cronova.Text

section Lists

variable {A : Type} {drops : A → Bool} {text core rest : List A}

/-- What is trimmed away is to be dropped. -/
theorem exists_trim (drops : A → Bool) (text : List A) : ∃ front back, text = front ++ (trim drops text ++ back) ∧
    (∀ a ∈ front, drops a = true) ∧ ∀ a ∈ back, drops a = true := by
  refine ⟨text.takeWhile drops, (text.dropWhile drops).rtakeWhile drops, ?_, fun a => List.mem_takeWhile_imp, fun a => List.mem_rtakeWhile_imp⟩
  rw [trim, List.rdropWhile_append_rtakeWhile, List.takeWhile_append_dropWhile]

/-- Behind a text that ends with something to keep, only the rest is trimmed. -/
theorem rdropWhile_append (kept : core.rdropWhile drops = core) : (core ++ rest).rdropWhile drops = core ++ rest.rdropWhile drops := by
  unfold List.rdropWhile at kept ⊢
  rw [List.reverse_append, List.dropWhile_append]
  split
  · rename_i empty
    rw [List.isEmpty_iff.mp empty, kept]
    simp
  · rw [List.reverse_append, List.reverse_reverse]

/-- In front of a text that starts with something to keep, everything is trimmed. -/
theorem trim_front {front : List A} (dropped : ∀ a ∈ front, drops a = true) (text : List A) : trim drops (front ++ text) = trim drops text := by
  rw [trim, List.dropWhile_append_of_pos dropped]
  rfl

theorem rdropWhile_of_all (all : ∀ a ∈ text, drops a = true) : text.rdropWhile drops = [] :=
  List.rdropWhile_eq_nil_iff.mpr all

theorem trim_back {back : List A} (dropped : ∀ a ∈ back, drops a = true) (text : List A) : trim drops (text ++ back) = trim drops text := by
  unfold trim
  rw [List.dropWhile_append]
  split
  · rename_i empty
    rw [List.isEmpty_iff.mp empty, List.dropWhile_eq_nil_iff.mpr dropped]
  · unfold List.rdropWhile
    rw [List.reverse_append, List.dropWhile_append_of_pos fun a listed => dropped a (List.mem_reverse.mp listed)]

theorem rtakeWhile_append (kept : core.rdropWhile drops = core) : (core ++ rest).rtakeWhile drops = rest.rtakeWhile drops := by
  have whole := List.rdropWhile_append_rtakeWhile (p := drops) (l := core ++ rest)
  have part := List.rdropWhile_append_rtakeWhile (p := drops) (l := rest)
  rw [rdropWhile_append kept, List.append_assoc] at whole
  exact List.append_cancel_left ((List.append_cancel_left whole).trans part.symm)

/-- What a text ends with is all that counts. -/
theorem rdropWhile_front (front : List A) (kept : core.rdropWhile drops = core) (nonempty : core ≠ []) :
    (front ++ core).rdropWhile drops = front ++ core := by
  rw [List.rdropWhile_eq_self_iff]
  intro _
  simp only [List.getLast_append_of_ne_nil _ nonempty]
  exact (List.rdropWhile_eq_self_iff.mp kept) nonempty

theorem rtakeWhile_of_all (all : ∀ a ∈ text, drops a = true) : text.rtakeWhile drops = text := by
  have whole := List.rdropWhile_append_rtakeWhile (p := drops) (l := text)
  rwa [rdropWhile_of_all all, List.nil_append] at whole

end Lists

end Cronova.Text

namespace Cronova.Datetmpl

open Calendar (Time)
open Text (trim isSpace trim_trim exists_trim trim_front trim_back rdropWhile_append rdropWhile_front)

/-! ### The grammar -/

/-- The units of offsets. -/
inductive Span where
  | days | weeks | months | hours
  deriving DecidableEq

def Span.text : Span → List Char
  | days => ['d']
  | weeks => ['w']
  | months => ['m', 'o']
  | hours => ['h']

structure Offset where
  count : Int
  span : Span

inductive Anchor where
  | monthStart | monthEnd | weekStart | weekEnd

def Anchor.text : Anchor → List Char
  | monthStart => "month_start".toList
  | monthEnd => "month_end".toList
  | weekStart => "week_start".toList
  | weekEnd => "week_end".toList

/-- What counts as a blank, and which numbers may be counted. -/
structure Dialect where
  blank : Char → Bool
  counts : Int → Prop

/-- Spaces and tabs, and all numbers. -/
def documented : Dialect where
  blank c := c == ' ' || c == '\t'
  counts _ := True

/-- White space, and the numbers of 64 bits. -/
def accepted : Dialect where
  blank := isSpace
  counts n := n ≤ maxInt64

/-- The count of a number behind a sign. -/
def signed (mark : Char) (digits : List Char) : Int := number digits * (if mark = '-' then -1 else 1)

/-- What may stand behind a unit: nothing but blanks, or something before which a unit ends. -/
def Parted (blank : Char → Bool) (rest : List Char) : Prop :=
  (∀ c ∈ rest, blank c = true) ∨ ∃ c later, rest = c :: later ∧ endsUnit c = true

/-- A sequence of offsets with blanks around and within them. -/
inductive Offsets (dialect : Dialect) : List Char → List Offset → Prop where
  | done {blanks : List Char} (white : ∀ c ∈ blanks, dialect.blank c = true) : Offsets dialect blanks []
  | offset {blanks inner digits rest : List Char} {mark : Char} {span : Span} {offsets : List Offset}
      (white : ∀ c ∈ blanks, dialect.blank c = true) (sign : mark = '+' ∨ mark = '-') (within : ∀ c ∈ inner, dialect.blank c = true)
      (nonempty : digits ≠ []) (digit : ∀ c ∈ digits, isDigit c = true) (counted : dialect.counts (number digits))
      (parted : Parted dialect.blank rest) (later : Offsets dialect rest offsets) :
      Offsets dialect (blanks ++ mark :: (inner ++ (digits ++ (span.text ++ rest)))) (⟨signed mark digits, span⟩ :: offsets)

/-- An anchor, if there is one, is attached to what stands before the suffix. -/
inductive Suffix (dialect : Dialect) : List Char → Option Anchor → List Offset → Prop where
  | bare {text : List Char} {offsets : List Offset} (rest : Offsets dialect text offsets) : Suffix dialect text none offsets
  | anchored {text : List Char} {offsets : List Offset} (anchor : Anchor) (rest : Offsets dialect text offsets) :
      Suffix dialect ('.' :: (anchor.text ++ text)) (some anchor) offsets

section Meaning

variable (loc : Location)

/-- An offset as `applyOffset` computes it. -/
def Offset.apply (t : Time) (o : Offset) : Time :=
  match o.span with
  | .days => loc.addDate t 0 0 o.count
  | .weeks => loc.addDate t 0 0 (int64 (7 * o.count))
  | .months => loc.addDate t 0 o.count 0
  | .hours => t + int64 (o.count * hour)

def Anchor.apply (t : Time) (anchor : Anchor) : Time := (applyAnchor loc t anchor.text).getD t

/-- The meaning of a suffix: the anchor first, then the offsets from left to right. -/
def meaning (anchor : Option Anchor) (offsets : List Offset) (t : Time) : Time :=
  offsets.foldl (Offset.apply loc) (anchor.elim t (Anchor.apply loc t))

end Meaning

/-! ### One offset -/

section Reading

variable {loc : Location} {t t' : Time} {s rest blanks inner digits : List Char} {mark : Char} {span : Span}

theorem isDigit_cases {c : Char} (digit : isDigit c = true) : ∃ n < 10, c = Nat.digitChar n := by
  obtain ⟨low, high⟩ := Bool.and_eq_true_iff.mp digit
  have low : 48 ≤ c.toNat := Char.le_def.mp (of_decide_eq_true low)
  have high : c.toNat ≤ 57 := Char.le_def.mp (of_decide_eq_true high)
  have each : ∀ n < 10, Char.ofNat (48 + n) = Nat.digitChar n := by decide
  obtain ⟨n, same⟩ := Nat.exists_eq_add_of_le low
  refine ⟨n, by omega, ?_⟩
  rw [← each n (by omega), ← same, Char.ofNat_toNat]

/-- A digit is no white space and ends no unit. -/
theorem isDigit_plain {c : Char} (digit : isDigit c = true) : isSpace c = false ∧ 0 ≤ (c.toNat - '0'.toNat : Int) := by
  have each : ∀ n < 10, isSpace (Nat.digitChar n) = false ∧ (0 : Int) ≤ (Nat.digitChar n).toNat - '0'.toNat := by decide +kernel
  obtain ⟨n, small, rfl⟩ := isDigit_cases digit
  exact each n small

theorem Span.text_spec (span : Span) : (∀ c ∈ span.text, endsUnit c = false) ∧
    (∃ c later, span.text = c :: later ∧ isDigit c = false) ∧ span.text.rdropWhile isSpace = span.text := by
  cases span <;> refine ⟨forall_mem_of_all (by decide), ⟨_, _, rfl, by decide⟩, by decide +kernel⟩

theorem Span.text_ne_nil (span : Span) : span.text ≠ [] := by
  cases span <;> exact List.cons_ne_nil _ _

/-- A count that `Atoi` has read is not changed by its sign. -/
theorem int64_signed (bounded : number digits ≤ maxInt64) (natural : 0 ≤ number digits) (mark : Char) :
    int64 (number digits * if mark = '-' then -1 else 1) = signed mark digits := by
  unfold int64 signed maxInt64 at *
  split <;> omega

theorem number_nonneg (digit : ∀ c ∈ digits, isDigit c = true) : 0 ≤ number digits := by
  have from_ (n : Int) (natural : 0 ≤ n) : 0 ≤ digits.foldl (fun (n : Int) c => 10 * n + (c.toNat - '0'.toNat)) n := by
    induction digits generalizing n with
    | nil => exact natural
    | cons c digits ih =>
      have value := (isDigit_plain (digit c (.head _))).2
      refine ih (fun other later => digit other (.tail _ later)) _ ?_
      change (0 : Int) ≤ 10 * n + (c.toNat - '0'.toNat)
      omega
  exact from_ 0 (Int.le_refl 0)

/-- A run of what is to be taken, up to something else. -/
theorem span_eq {p : Char → Bool} {run rest : List Char} (taken : ∀ c ∈ run, p c = true)
    (stop : rest = [] ∨ ∃ c later, rest = c :: later ∧ p c = false) :
    (run ++ rest).takeWhile p = run ∧ (run ++ rest).dropWhile p = rest := by
  rw [List.takeWhile_append_of_pos taken, List.dropWhile_append_of_pos taken]
  rcases stop with rfl | ⟨c, later, rfl, other⟩
  · simp
  · simp [other]

/-- The text of an offset is read, up to the rest. -/
theorem applyOffset_reads (sign : mark = '+' ∨ mark = '-') (within : ∀ c ∈ inner, isSpace c = true) (nonempty : digits ≠ [])
    (digit : ∀ c ∈ digits, isDigit c = true) (counted : number digits ≤ maxInt64) (trimmed : rest.rdropWhile isSpace = rest)
    (parted : rest = [] ∨ ∃ c later, rest = c :: later ∧ endsUnit c = true) :
    applyOffset loc t (mark :: (inner ++ (digits ++ (span.text ++ rest)))) = some (Offset.apply loc t ⟨signed mark digits, span⟩, rest) := by
  obtain ⟨unitPlain, ⟨u, later, unit, notDigit⟩, unitKept⟩ := span.text_spec
  obtain ⟨d, more, rfl⟩ := List.exists_cons_of_ne_nil nonempty
  -- the white space behind the sign is trimmed, and nothing else
  have front : trim isSpace (inner ++ (d :: more ++ (span.text ++ rest))) = d :: more ++ (span.text ++ rest) := by
    have first : isSpace d = false := (isDigit_plain (digit d (.head _))).1
    have kept : (span.text ++ rest).rdropWhile isSpace = span.text ++ rest := by rw [rdropWhile_append unitKept, trimmed]
    have digitsKept : (d :: more).rdropWhile isSpace = d :: more := by
      rw [List.rdropWhile_eq_self_iff]
      intro _
      rw [(isDigit_plain (digit _ (List.getLast_mem _))).1]
      exact Bool.false_ne_true
    rw [trim_front within, trim, List.cons_append, List.dropWhile_cons_of_neg (by simp [first]), ← List.cons_append,
      rdropWhile_append digitsKept, kept]
  have numerals := @span_eq _ (d :: more) (span.text ++ rest) digit (.inr ⟨u, later ++ rest, by rw [unit]; rfl, notDigit⟩)
  have units : (span.text ++ rest).takeWhile (!endsUnit ·) = span.text ∧ (span.text ++ rest).dropWhile (!endsUnit ·) = rest := by
    apply span_eq
    · intro c listed
      rw [unitPlain c listed]
      rfl
    · refine parted.imp_right ?_
      rintro ⟨c, later, same, ends⟩
      exact ⟨c, later, same, by rw [ends]; rfl⟩
  have mark_ : ¬ (mark ≠ '+' ∧ mark ≠ '-') := fun neither => sign.elim neither.1 neither.2
  have value := int64_signed counted (number_nonneg digit) mark
  rw [applyOffset, if_neg mark_]
  simp only [front, numerals.1, numerals.2, if_neg nonempty, atoi, if_pos counted, units.1, units.2, value]
  cases span <;> rfl

/-- The text starts with an offset, behind which the rest and white space stand. -/
def StartsWith (s : List Char) (o : Offset) (rest : List Char) : Prop :=
  ∃ mark inner digits back, s = mark :: (inner ++ (digits ++ (o.span.text ++ (rest ++ back)))) ∧ (mark = '+' ∨ mark = '-') ∧
    (∀ c ∈ inner, isSpace c = true) ∧ digits ≠ [] ∧ (∀ c ∈ digits, isDigit c = true) ∧ number digits ≤ maxInt64 ∧
    (∀ c ∈ back, isSpace c = true) ∧ (rest = [] ∨ ∃ c later, rest = c :: later ∧ endsUnit c = true) ∧ o.count = signed mark digits

/-- Whatever is read is the text of an offset. -/
theorem applyOffset_some (read : applyOffset loc t s = some (t', rest)) : ∃ o, StartsWith s o rest ∧ t' = Offset.apply loc t o := by
  cases s with
  | nil => cases read
  | cons mark s =>
    unfold applyOffset at read
    dsimp only at read
    split at read
    · cases read
    · rename_i sign
      have sign : mark = '+' ∨ mark = '-' := by tauto
      obtain ⟨inner, back, whole, within, white⟩ := exists_trim isSpace s
      generalize trim isSpace s = z at read whole
      have digits_ := List.takeWhile_append_dropWhile (p := isDigit) (l := z)
      have digit : ∀ c ∈ z.takeWhile isDigit, isDigit c = true := fun c => List.mem_takeWhile_imp
      split at read
      · cases read
      · rename_i nonempty
        generalize z.takeWhile isDigit = digits at read digits_ digit nonempty
        generalize z.dropWhile isDigit = y at read digits_
        have unit_ := List.takeWhile_append_dropWhile (p := (!endsUnit ·)) (l := y)
        have parted : y.dropWhile (!endsUnit ·) = [] ∨ ∃ c later, y.dropWhile (!endsUnit ·) = c :: later ∧ endsUnit c = true := by
          have head := List.head?_dropWhile_not (!endsUnit ·) y
          cases kept : y.dropWhile (!endsUnit ·) with
          | nil => exact .inl rfl
          | cons c later =>
            rw [kept] at head
            exact .inr ⟨c, later, rfl, by simpa using head⟩
        generalize y.takeWhile (!endsUnit ·) = unit at read unit_
        generalize y.dropWhile (!endsUnit ·) = rest' at read unit_ parted
        subst unit_ digits_
        cases counted : atoi digits with
        | none =>
          rw [counted] at read
          cases read
        | some n =>
          obtain ⟨bounded, rfl⟩ : number digits ≤ maxInt64 ∧ number digits = n := by
            unfold atoi at counted
            split at counted
            · exact ⟨‹_›, Option.some.inj counted⟩
            · cases counted
          rw [counted] at read
          dsimp only at read
          rw [int64_signed bounded (number_nonneg digit)] at read
          have ends (span : Span) (unit' : unit = span.text)
              (result : some (Offset.apply loc t ⟨signed mark digits, span⟩, rest') = some (t', rest)) :
              ∃ o, StartsWith (mark :: s) o rest ∧ t' = Offset.apply loc t o := by
            obtain ⟨rfl, rfl⟩ := Prod.mk.inj (Option.some.inj result)
            refine ⟨⟨signed mark digits, span⟩, ⟨mark, inner, digits, back, ?_, sign, within, nonempty, digit, bounded, white, parted, rfl⟩, rfl⟩
            rw [whole, unit']
            simp
          split at read
          · exact ends .days ‹_› read
          · split at read
            · exact ends .weeks ‹_› read
            · split at read
              · exact ends .months ‹_› read
              · split at read
                · exact ends .hours ‹_› read
                · cases read

end Reading

/-! ### The loop -/

section Loop

variable {loc : Location} {t t' : Time} {text text' : List Char} {offsets : List Offset} {rounds : Nat}

/-- The loop looks at the trimmed text only. -/
theorem shiftLoop_trim (same : trim isSpace text = trim isSpace text') (rounds : Nat) (t : Time) :
    shiftLoop loc rounds t text = shiftLoop loc rounds t text' := by
  cases rounds with
  | zero => rfl
  | succ rounds => rw [shiftLoop, shiftLoop, same]

theorem trim_rdropWhile (rest : List Char) : trim isSpace (rest.rdropWhile isSpace) = trim isSpace rest := by
  conv => rhs; rw [← List.rdropWhile_append_rtakeWhile (p := isSpace) (l := rest)]
  exact (trim_back (fun c => List.mem_rtakeWhile_imp) _).symm

theorem sign_not_space {mark : Char} (sign : mark = '+' ∨ mark = '-') : isSpace mark = false := by
  rcases sign with rfl | rfl <;> decide

/-- Every offset of a sequence is applied. -/
theorem shiftLoop_reads (read : Offsets accepted text offsets) (enough : offsets.length < rounds) (t : Time) :
    shiftLoop loc rounds t text = some (some (offsets.foldl (Offset.apply loc) t)) := by
  induction read generalizing rounds t with
  | @done blanks white =>
    obtain ⟨rounds, rfl⟩ := Nat.exists_eq_succ_of_ne_zero (Nat.ne_of_gt enough)
    have white : ∀ c ∈ blanks, isSpace c = true := white
    have nothing : trim isSpace blanks = [] := by
      have front := trim_front white []
      rwa [List.append_nil] at front
    rw [shiftLoop, if_pos nothing]
    rfl
  | @offset blanks inner digits rest mark span offsets white sign within nonempty digit counted parted later ih =>
    obtain ⟨rounds, rfl⟩ := Nat.exists_eq_succ_of_ne_zero (Nat.ne_zero_of_lt enough)
    have white : ∀ c ∈ blanks, isSpace c = true := white
    -- the text up to the unit keeps its end
    have body : trim isSpace (blanks ++ mark :: (inner ++ (digits ++ (span.text ++ rest)))) =
        mark :: (inner ++ (digits ++ (span.text ++ rest.rdropWhile isSpace))) := by
      have unitKept : (mark :: (inner ++ (digits ++ span.text))).rdropWhile isSpace = mark :: (inner ++ (digits ++ span.text)) := by
        have shape : mark :: (inner ++ (digits ++ span.text)) = (mark :: (inner ++ digits)) ++ span.text := by simp
        rw [shape]
        exact rdropWhile_front _ span.text_spec.2.2 span.text_ne_nil
      have shape (rest : List Char) : mark :: (inner ++ (digits ++ (span.text ++ rest))) = (mark :: (inner ++ (digits ++ span.text))) ++ rest := by
        simp
      rw [trim_front white, shape, trim, List.cons_append, List.dropWhile_cons_of_neg (by simp [sign_not_space sign]), ← List.cons_append,
        rdropWhile_append unitKept, ← shape]
    have stop : rest.rdropWhile isSpace = [] ∨ ∃ c later, rest.rdropWhile isSpace = c :: later ∧ endsUnit c = true := by
      rcases parted with all | ⟨c, behind, rfl, ends⟩
      · exact .inl (Text.rdropWhile_of_all all)
      · obtain ⟨back, whole⟩ := List.rdropWhile_prefix isSpace (c :: behind)
        cases kept : (c :: behind).rdropWhile isSpace with
        | nil => exact .inl rfl
        | cons d more =>
          rw [kept] at whole
          obtain rfl : d = c := (List.cons.inj whole).1
          exact .inr ⟨d, more, rfl, ends⟩
    have one := @applyOffset_reads loc t _ _ _ _ span sign within nonempty digit counted
      (List.rdropWhile_idempotent isSpace rest) stop
    rw [shiftLoop, if_neg (by rw [body]; exact List.cons_ne_nil _ _), body, one]
    dsimp only
    rw [shiftLoop_trim (trim_rdropWhile rest), ih (Nat.lt_of_succ_lt_succ enough)]
    rfl

/-- A sequence has a character for each offset. -/
theorem Offsets.length_le {dialect : Dialect} (read : Offsets dialect text offsets) : offsets.length ≤ text.length := by
  induction read with
  | done white => exact Nat.zero_le _
  | offset white sign within _ digit counted parted later ih =>
    simp only [List.length_cons, List.length_append]
    omega

/-- What the loop has read is a sequence of offsets. -/
theorem shiftLoop_some (ended : shiftLoop loc rounds t text = some (some t')) :
    ∃ offsets, Offsets accepted text offsets ∧ t' = offsets.foldl (Offset.apply loc) t := by
  induction rounds generalizing t text with
  | zero => cases ended
  | succ rounds ih =>
    obtain ⟨front, back, whole, white, white'⟩ := exists_trim isSpace text
    rw [shiftLoop] at ended
    split at ended
    · rename_i nothing
      obtain rfl := Option.some.inj (Option.some.inj ended)
      refine ⟨[], ?_, rfl⟩
      rw [whole, nothing]
      refine .done fun c listed => ?_
      rcases List.mem_append.mp listed with early | late
      · exact white c early
      · exact white' c late
    · split at ended
      · cases ended
      · rename_i t₁ rest read
        obtain ⟨⟨count, span⟩, ⟨mark, inner, digits, behind, shape, sign, within, nonempty, digit, bounded, white'', stop, rfl⟩, rfl⟩ :=
          applyOffset_some read
        have more : ∀ c ∈ behind ++ back, isSpace c = true := by
          intro c listed
          rcases List.mem_append.mp listed with early | late
          · exact white'' c early
          · exact white' c late
        rw [← shiftLoop_trim (trim_back more rest)] at ended
        obtain ⟨offsets, later, rfl⟩ := ih ended
        have parted : Parted isSpace (rest ++ (behind ++ back)) := by
          rcases stop with rfl | ⟨c, tail, rfl, ends⟩
          · exact .inl more
          · exact .inr ⟨c, tail ++ (behind ++ back), rfl, ends⟩
        refine ⟨⟨signed mark digits, span⟩ :: offsets, ?_, rfl⟩
        have text_ : text = front ++ mark :: (inner ++ (digits ++ (span.text ++ (rest ++ (behind ++ back))))) := by
          rw [whole, shape]
          simp
        rw [text_]
        exact .offset white sign within nonempty digit bounded parted later

/-- Every round takes an offset away. -/
theorem shiftLoop_ends (short : (trim isSpace text).length < rounds) : shiftLoop loc rounds t text ≠ none := by
  induction rounds generalizing t text with
  | zero => omega
  | succ rounds ih =>
    rw [shiftLoop]
    split
    · exact Option.some_ne_none _
    · split
      · exact Option.some_ne_none _
      · rename_i t₁ rest read
        obtain ⟨o, ⟨mark, inner, digits, behind, shape, _⟩, _⟩ := applyOffset_some read
        have less := congrArg List.length shape
        have trimmed := (Text.trim_sublist isSpace rest).length_le
        simp only [List.length_cons, List.length_append] at less
        exact ih (by omega)

end Loop

/-! ### The whole suffix -/

section Whole

variable {loc : Location} {t t' : Time} {text name : List Char} {offsets more : List Offset} {anchor : Option Anchor}

theorem applyAnchor_reads (anchor : Anchor) : applyAnchor loc t anchor.text = some (anchor.apply loc t) := by
  cases anchor <;> rfl

/-- Whatever is looked up is the name of an anchor. -/
theorem applyAnchor_some (read : applyAnchor loc t name = some t') : ∃ anchor : Anchor, name = anchor.text ∧ t' = anchor.apply loc t := by
  unfold applyAnchor at read
  dsimp only at read
  split at read
  · exact ⟨.monthStart, ‹_›, (Option.some.inj read).symm⟩
  · split at read
    · exact ⟨.monthEnd, ‹_›, (Option.some.inj read).symm⟩
    · split at read
      · exact ⟨.weekStart, ‹_›, (Option.some.inj read).symm⟩
      · split at read
        · exact ⟨.weekEnd, ‹_›, (Option.some.inj read).symm⟩
        · cases read

theorem isSpace_apart {c : Char} (white : isSpace c = true) : inAnchor c = false ∧ c ≠ '.' := by
  rcases Bool.or_eq_true_iff.mp white with listed | far
  · have each : ∀ c ∈ ['\t', '\n', '\x0b', '\x0c', '\r', ' ', '\u0085', '\u00a0', '\u1680', '\u2028', '\u2029', '\u202f', '\u205f', '\u3000'],
        inAnchor c = false ∧ c ≠ '.' := forall_mem_of_all (by decide +kernel)
    exact each c (of_decide_eq_true listed)
  · have far : 8192 ≤ c.toNat := Char.le_def.mp (of_decide_eq_true (Bool.and_eq_true_iff.mp far).1)
    have beyond (d : Char) (small : d.toNat < 8192) : c ≠ d := by
      rintro rfl
      omega
    refine ⟨?_, beyond '.' (by decide)⟩
    have high : ¬ c ≤ 'z' := fun low => by
      have low : c.toNat ≤ 122 := Char.le_def.mp low
      omega
    simp [inAnchor, beyond '_' (by decide), high]

/-- A sequence of offsets begins neither as a name nor with a dot. -/
theorem Offsets.apart (read : Offsets accepted text offsets) : text = [] ∨ ∃ c later, text = c :: later ∧ inAnchor c = false ∧ c ≠ '.' := by
  have sign_ {mark : Char} (sign : mark = '+' ∨ mark = '-') : inAnchor mark = false ∧ mark ≠ '.' := by
    rcases sign with rfl | rfl <;> decide
  cases read with
  | done white =>
    cases text with
    | nil => exact .inl rfl
    | cons c later => exact .inr ⟨c, later, rfl, isSpace_apart (white c (.head _))⟩
  | @offset blanks _ _ _ mark _ _ white sign =>
    cases blanks with
    | nil => exact .inr ⟨mark, _, rfl, sign_ sign⟩
    | cons c later => exact .inr ⟨c, _, rfl, isSpace_apart (white c (.head _))⟩

theorem Anchor.text_plain (anchor : Anchor) : ∀ c ∈ anchor.text, inAnchor c = true ∧ isSpace c = false ∧ c ≠ '+' ∧ c ≠ '-' := by
  cases anchor <;> exact forall_mem_of_all (by decide +kernel)

/-- `Shift` reads the texts of the grammar, and computes their meaning. -/
theorem Shift_reads (read : Suffix accepted text anchor offsets) (t : Time) : Shift loc t text = some (meaning loc anchor offsets t) := by
  cases read with
  | bare rest =>
    have taken : takeAnchor loc t text = some (t, text) := by
      rcases rest.apart with rfl | ⟨c, later, rfl, _, dot⟩
      · rfl
      · unfold takeAnchor
        split
        · rename_i after same
          exact absurd (List.cons.inj same).1 dot
        · rfl
    have run := @shiftLoop_reads loc _ _ _ rest (Nat.lt_succ_of_le rest.length_le) t
    rw [Shift, shiftRounds, taken]
    dsimp only
    rw [run]
    rfl
  | @anchored text _ anchor rest =>
    have parts := @span_eq inAnchor _ text (fun c listed => (anchor.text_plain c listed).1)
      (rest.apart.imp_right fun ⟨c, later, same, other, _⟩ => ⟨c, later, same, other⟩)
    have taken : takeAnchor loc t ('.' :: (anchor.text ++ text)) = some (anchor.apply loc t, text) := by
      rw [takeAnchor, parts.1, parts.2, applyAnchor_reads]
      rfl
    have enough : offsets.length < ('.' :: (anchor.text ++ text)).length + 1 := by
      have bound := rest.length_le
      simp only [List.length_cons, List.length_append]
      omega
    rw [Shift, shiftRounds, taken]
    dsimp only
    rw [shiftLoop_reads rest enough]
    rfl

/-- What `takeAnchor` leaves is no longer than the suffix. -/
theorem takeAnchor_spec {rest : List Char} (taken : takeAnchor loc t text = some (t', rest)) :
    rest.length ≤ text.length ∧ ((text = rest ∧ t' = t) ∨ ∃ anchor : Anchor, text = '.' :: (anchor.text ++ rest) ∧ t' = anchor.apply loc t) := by
  unfold takeAnchor at taken
  split at taken
  · rename_i after
    obtain ⟨t₁, applied, same⟩ := Option.map_eq_some_iff.mp taken
    obtain ⟨rfl, rfl⟩ := Prod.mk.inj same
    obtain ⟨anchor, named, rfl⟩ := applyAnchor_some applied
    have whole := List.takeWhile_append_dropWhile (p := inAnchor) (l := after)
    refine ⟨?_, .inr ⟨anchor, ?_, rfl⟩⟩
    · have shorter := (List.dropWhile_sublist (l := after) inAnchor).length_le
      rw [List.length_cons]
      omega
    · rw [← named, whole]
  · obtain ⟨rfl, rfl⟩ := Prod.mk.inj (Option.some.inj taken)
    exact ⟨Nat.le_refl _, .inl ⟨rfl, rfl⟩⟩

/-- The rounds of `Shift` are enough for every text. -/
theorem shiftRounds_ends (loc : Location) (t : Time) (text : List Char) : shiftRounds loc (text.length + 1) t text ≠ none := by
  unfold shiftRounds
  split
  · exact Option.some_ne_none _
  · rename_i t₁ rest taken
    have shorter := (takeAnchor_spec taken).1
    have trimmed := (Text.trim_sublist isSpace rest).length_le
    exact shiftLoop_ends (by omega)

/-- Whatever `Shift` reads is a text of the grammar. -/
theorem Shift_some (read : Shift loc t text = some t') :
    ∃ anchor offsets, Suffix accepted text anchor offsets ∧ t' = meaning loc anchor offsets t := by
  have ended : shiftRounds loc (text.length + 1) t text = some (some t') := by
    cases rounds : shiftRounds loc (text.length + 1) t text with
    | none => exact absurd rounds (shiftRounds_ends loc t text)
    | some result =>
      rw [Shift, rounds] at read
      exact congrArg some read
  unfold shiftRounds at ended
  split at ended
  · cases ended
  · rename_i t₁ rest taken
    obtain ⟨offsets, parsed, rfl⟩ := shiftLoop_some ended
    rcases (takeAnchor_spec taken).2 with ⟨rfl, rfl⟩ | ⟨anchor, rfl, rfl⟩
    · exact ⟨none, offsets, .bare parsed, rfl⟩
    · exact ⟨some anchor, offsets, .anchored anchor parsed, rfl⟩

/-- `Shift` succeeds on the texts of the grammar and on no others. -/
theorem Shift_isSome_iff : (Shift loc t text).isSome = true ↔ ∃ anchor offsets, Suffix accepted text anchor offsets := by
  constructor
  · intro succeeded
    obtain ⟨t', read⟩ := Option.isSome_iff_exists.mp succeeded
    obtain ⟨anchor, offsets, parsed, _⟩ := Shift_some read
    exact ⟨anchor, offsets, parsed⟩
  · intro ⟨anchor, offsets, parsed⟩
    rw [Shift_reads parsed]
    rfl

/-! ### One suffix behind another -/

theorem Offsets.front {dialect : Dialect} {front : List Char} (white : ∀ c ∈ front, dialect.blank c = true) (read : Offsets dialect text offsets) :
    Offsets dialect (front ++ text) offsets := by
  have joined {blanks : List Char} (white' : ∀ c ∈ blanks, dialect.blank c = true) : ∀ c ∈ front ++ blanks, dialect.blank c = true := by
    intro c listed
    rcases List.mem_append.mp listed with early | late
    · exact white c early
    · exact white' c late
  cases read with
  | done white' => exact .done (joined white')
  | offset white' sign within nonempty digit counted parted later =>
    rw [← List.append_assoc]
    exact .offset (joined white') sign within nonempty digit counted parted later

/-- A further offset may stand behind the text: a unit ends at what the text ends with, or no offset stands in it. -/
def Open (text : List Char) : Prop :=
  (∀ c ∈ text, c ≠ '+' ∧ c ≠ '-') ∨ ∀ c ∈ (text.rtakeWhile isSpace).head?, endsUnit c = true

theorem Offsets.append {b : List Char} {blank : Char} (read : Offsets accepted text offsets) (free : Open text ∨ ∀ c ∈ b, isSpace c = true)
    (blank_ : documented.blank blank = true) (behind : Offsets accepted b more) : Offsets accepted (text ++ blank :: b) (offsets ++ more) := by
  have white_ : isSpace blank = true ∧ endsUnit blank = true := by
    rcases Bool.or_eq_true_iff.mp blank_ with space | tab
    · rw [eq_of_beq space]
      decide
    · rw [eq_of_beq tab]
      decide
  induction read with
  | @done blanks white =>
    have all : ∀ c ∈ blanks ++ [blank], isSpace c = true := by
      intro c listed
      rcases List.mem_append.mp listed with early | late
      · exact white c early
      · rw [List.mem_singleton.mp late]
        exact white_.1
    have joined := behind.front all
    rwa [List.append_assoc] at joined
  | @offset blanks inner digits rest mark span offsets white sign within nonempty digit counted parted later ih =>
    let core := blanks ++ mark :: (inner ++ (digits ++ span.text))
    have whole (rest : List Char) : blanks ++ mark :: (inner ++ (digits ++ (span.text ++ rest))) = core ++ rest := by simp [core]
    -- what the text ends with is what the rest ends with
    have trailing : (core ++ rest).rtakeWhile isSpace = rest.rtakeWhile isSpace := by
      have shape : core = (blanks ++ mark :: (inner ++ digits)) ++ span.text := by simp [core]
      rw [shape]
      exact Text.rtakeWhile_append (rdropWhile_front _ span.text_spec.2.2 span.text_ne_nil)
    have free' : (∀ c ∈ (rest.rtakeWhile isSpace).head?, endsUnit c = true) ∨ ∀ c ∈ b, isSpace c = true := by
      rcases free with (none_ | ends) | blankBehind
      · have listed : mark ∈ blanks ++ mark :: (inner ++ (digits ++ (span.text ++ rest))) := List.mem_append_right _ (.head _)
        rcases sign with rfl | rfl
        · exact absurd rfl (none_ _ listed).1
        · exact absurd rfl (none_ _ listed).2
      · rw [whole, trailing] at ends
        exact .inl ends
      · exact .inr blankBehind
    have parted' : Parted isSpace (rest ++ blank :: b) := by
      rcases parted with all | ⟨c, tail, rfl, ends⟩
      · cases rest with
        | nil => exact .inr ⟨blank, b, rfl, white_.2⟩
        | cons c tail =>
          rcases free' with ends | blankBehind
          · have all : ∀ d ∈ c :: tail, isSpace d = true := all
            rw [Text.rtakeWhile_of_all all] at ends
            exact .inr ⟨c, tail ++ blank :: b, rfl, ends c rfl⟩
          · refine .inl fun d listed => ?_
            rcases List.mem_append.mp listed with early | late
            · exact all d early
            · cases late with
              | head => exact white_.1
              | tail _ late => exact blankBehind d late
      · exact .inr ⟨c, tail ++ blank :: b, rfl, ends⟩
    have joined : Offsets accepted (core ++ (rest ++ blank :: b)) (⟨signed mark digits, span⟩ :: (offsets ++ more)) := by
      rw [← whole]
      exact .offset white sign within nonempty digit counted parted' (ih (free'.imp_left .inr))
    rw [whole, List.append_assoc]
    exact joined

theorem Anchor.text_ne_nil (anchor : Anchor) : anchor.text ≠ [] := by
  cases anchor <;> exact List.cons_ne_nil _ _

theorem Suffix.append {b : List Char} {blank : Char} (read : Suffix accepted text anchor offsets) (free : Open text ∨ ∀ c ∈ b, isSpace c = true)
    (blank_ : documented.blank blank = true) (behind : Offsets accepted b more) : Suffix accepted (text ++ blank :: b) anchor (offsets ++ more) := by
  cases read with
  | bare rest => exact .bare (rest.append free blank_ behind)
  | @anchored text _ anchor rest =>
    have kept : ('.' :: anchor.text).rdropWhile isSpace = '.' :: anchor.text := by
      apply rdropWhile_front ['.'] _ anchor.text_ne_nil
      rw [List.rdropWhile_eq_self_iff]
      intro nonempty
      rw [(anchor.text_plain _ (List.getLast_mem nonempty)).2.1]
      exact Bool.false_ne_true
    have free' : Open text ∨ ∀ c ∈ b, isSpace c = true := by
      rcases free with (none_ | ends) | blankBehind
      · exact .inl (.inl fun c listed => none_ c (.tail _ (List.mem_append_right _ listed)))
      · have trailing : ('.' :: anchor.text ++ text).rtakeWhile isSpace = text.rtakeWhile isSpace := Text.rtakeWhile_append kept
        rw [← List.cons_append, trailing] at ends
        exact .inl (.inr ends)
      · exact .inr blankBehind
    have joined := rest.append free' blank_ behind
    rw [List.cons_append, List.append_assoc]
    exact .anchored anchor joined

/-- Without a dot in front, there is no anchor. -/
theorem Suffix.no_anchor (read : Suffix accepted text anchor offsets) (dotless : text.head? ≠ some '.') : anchor = none ∧ Offsets accepted text offsets := by
  cases read with
  | bare rest => exact ⟨rfl, rest⟩
  | anchored anchor rest => exact absurd rfl dotless

/-- `Shift` succeeds for every instant or for none, its loop ends, it reads exactly the grammar, and the meaning of a
text behind another is the composition of their meanings. -/
theorem offsets_evaluate (loc : Location) (t : Time) (text : List Char) :
    (Shift loc t text).isSome = ValidOffset text ∧ shiftRounds loc (text.length + 1) t text ≠ none ∧
    ((Shift loc t text).isSome = true ↔ ∃ anchor offsets, Suffix accepted text anchor offsets) ∧
    ∀ blank b, documented.blank blank = true → ValidOffset text = true → ValidOffset b = true → b.head? ≠ some '.' →
      (Open text ∨ ∀ c ∈ b, isSpace c = true) → Shift loc t (text ++ blank :: b) = (Shift loc t text).bind (Shift loc · b) := by
  refine ⟨?_, shiftRounds_ends loc t text, Shift_isSome_iff, ?_⟩
  · rw [ValidOffset, Bool.eq_iff_iff, Shift_isSome_iff, Shift_isSome_iff]
  · intro blank b blank_ valid valid' dotless free
    obtain ⟨anchor, offsets, read⟩ := Shift_isSome_iff.mp valid
    obtain ⟨anchor', more, read'⟩ := Shift_isSome_iff.mp valid'
    obtain ⟨rfl, behind⟩ := read'.no_anchor dotless
    rw [Shift_reads (read.append free blank_ behind), Shift_reads read, Option.bind_some, Shift_reads read', meaning, List.foldl_append]
    rfl

theorem two_offsets : Shift utc 0 "+1d +2h".toList = (Shift utc 0 "+1d".toList).bind (Shift utc · "+2h".toList) :=
  have open_ : ("+1d".toList.rtakeWhile isSpace).head? = none := by decide +kernel
  (offsets_evaluate utc 0 "+1d".toList).2.2.2 ' ' "+2h".toList (by decide) (by decide +kernel) (by decide +kernel) (by decide)
    (.inl (.inr fun _ listed => nomatch open_ ▸ listed))

theorem Offsets.no_newline (read : Offsets documented text offsets) : '\n' ∉ text := by
  have plain {blanks : List Char} (white : ∀ c ∈ blanks, documented.blank c = true) : '\n' ∉ blanks :=
    fun listed => absurd (white _ listed) (by decide)
  induction read with
  | done white => exact plain white
  | @offset blanks inner digits rest mark span offsets white sign within nonempty digit counted parted later ih =>
    have mark_ : '\n' ≠ mark := by rcases sign with rfl | rfl <;> decide
    have digits_ : '\n' ∉ digits := fun listed => absurd (digit _ listed) (by decide)
    have span_ : '\n' ∉ span.text := by cases span <;> decide
    simp only [List.mem_append, List.mem_cons, plain white, mark_, plain within, digits_, span_, ih, or_self, not_false_eq_true]

/-- A newline is taken for a blank, except between two offsets; and a number of 2^63 is not read. -/
theorem newline_is_blank :
    (¬ ∀ text, (Shift utc 0 text).isSome = true ↔ ∃ anchor offsets, Suffix documented text anchor offsets) ∧
    (ValidOffset "-1d\n".toList = true ∧ ValidOffset "-1d".toList = true ∧ ValidOffset "-1d\n -1d".toList = false) ∧
    (Suffix documented "+9223372036854775808h".toList none [⟨2 ^ 63, .hours⟩] ∧ ValidOffset "+9223372036854775808h".toList = false) := by
  refine ⟨fun exactly => ?_, by decide +kernel, ?_, by decide +kernel⟩
  · obtain ⟨anchor, offsets, read⟩ := (exactly "-1d\n".toList).mp (by decide +kernel)
    generalize same : "-1d\n".toList = text at read
    cases read with
    | bare rest =>
      rw [← same] at rest
      exact rest.no_newline (by decide)
    | anchored anchor rest => exact absurd (List.cons.inj same).1 (by decide)
  · have one : Offsets documented ([] ++ '+' :: ([] ++ ("9223372036854775808".toList ++ (Span.text .hours ++ []))))
        [⟨signed '+' "9223372036854775808".toList, .hours⟩] :=
      .offset (forall_mem_of_all (by decide)) (.inl rfl) (forall_mem_of_all (by decide)) (by decide) (forall_mem_of_all (by decide)) trivial
        (.inl (forall_mem_of_all (by decide))) (.done (forall_mem_of_all (by decide)))
    exact .bare one

end Whole

end Cronova.Datetmpl
