import Mathlib.Data.List.DropRight
import Mathlib.Data.String.Basic
import Mathlib.Tactic.Ring

/-! The lexicographic order of decimal text.

Numerals of one width are ordered like the numbers they denote. Between numerals of
different widths, and after trailing zeros are dropped, the character that follows the
shorter one decides.
-/

set_option autoImplicit false

namespace Cronova.Text

section Lists

variable {A : Type} [LinearOrder A]

/-- Texts are compared field by field when the fields have one width. -/
theorem append_lt_append_iff {x y u v : List A} (width : x.length = y.length) :
    x ++ u < y ++ v ↔ x < y ∨ x = y ∧ u < v := by
  induction x generalizing y with
  | nil =>
    obtain rfl := List.eq_nil_of_length_eq_zero width.symm
    simp
  | cons a x ih =>
    cases y with
    | nil => simp at width
    | cons b y =>
      simp only [List.cons_append, List.cons_lt_cons_iff, ih (Nat.succ.inj width), List.cons.injEq]
      tauto

/-- Two texts of one width differ at a first place. -/
theorem first_difference {x y : List A} (width : x.length = y.length) (less : x < y) :
    ∃ c a b r s, a < b ∧ x = c ++ a :: r ∧ y = c ++ b :: s := by
  induction x generalizing y with
  | nil =>
    obtain rfl := List.eq_nil_of_length_eq_zero width.symm
    simp at less
  | cons a x ih =>
    cases y with
    | nil => simp at width
    | cons b y =>
      rcases List.cons_lt_cons_iff.mp less with smaller | ⟨rfl, later⟩
      · exact ⟨[], a, b, x, y, smaller, rfl, rfl⟩
      · obtain ⟨c, d, e, r, s, smaller, rfl, rfl⟩ := ih (Nat.succ.inj width) later
        exact ⟨a :: c, d, e, r, s, smaller, rfl, rfl⟩

theorem append_cons_lt (c : List A) {a b : A} (r s : List A) (less : a < b) : c ++ a :: r < c ++ b :: s := by
  rw [append_lt_append_iff rfl]
  exact .inr ⟨rfl, List.cons_lt_cons_iff.mpr (.inl less)⟩

end Lists

/-- The last `width` decimal digits of a number. -/
def digits : (width n : Nat) → List Char
  | 0, _ => []
  | width + 1, n => digits width (n / 10) ++ [Nat.digitChar (n % 10)]

@[simp] theorem length_digits (width n : Nat) : (digits width n).length = width := by
  induction width generalizing n with
  | zero => rfl
  | succ width ih => simp [digits, ih]

theorem digitChar_lt_iff : ∀ a < 10, ∀ b < 10, (Nat.digitChar a < Nat.digitChar b ↔ a < b) := by decide

theorem digitChar_inj : ∀ a < 10, ∀ b < 10, (Nat.digitChar a = Nat.digitChar b ↔ a = b) := by decide

theorem digits_inj {width m n : Nat} (left : m < 10 ^ width) (right : n < 10 ^ width) :
    digits width m = digits width n ↔ m = n := by
  induction width generalizing m n with
  | zero =>
    simp only [Nat.pow_zero, Nat.lt_one_iff] at left right
    simp [left, right]
  | succ width ih =>
    constructor
    · intro same
      obtain ⟨heads, lasts⟩ := List.append_inj' same rfl
      have high := (ih (Nat.div_lt_of_lt_mul (by omega)) (Nat.div_lt_of_lt_mul (by omega))).mp heads
      have low := (digitChar_inj (m % 10) (by omega) (n % 10) (by omega)).mp (by simpa using lasts)
      omega
    · rintro rfl
      rfl

/-- Numerals of one width are ordered like their numbers. -/
theorem digits_lt_iff {width m n : Nat} (left : m < 10 ^ width) (right : n < 10 ^ width) :
    digits width m < digits width n ↔ m < n := by
  induction width generalizing m n with
  | zero =>
    simp only [Nat.pow_zero, Nat.lt_one_iff] at left right
    simp [left, right]
  | succ width ih =>
    have left' : m / 10 < 10 ^ width := Nat.div_lt_of_lt_mul (by omega)
    have right' : n / 10 < 10 ^ width := Nat.div_lt_of_lt_mul (by omega)
    have lasts := digitChar_lt_iff (m % 10) (by omega) (n % 10) (by omega)
    simp only [digits]
    rw [append_lt_append_iff (by simp), ih left' right', digits_inj left' right', List.cons_lt_cons_iff, lasts]
    simp only [List.not_lt_nil, and_false, or_false]
    omega

theorem digits_add (high low n : Nat) : digits (high + low) n = digits high (n / 10 ^ low) ++ digits low n := by
  induction low generalizing n with
  | zero => simp [digits]
  | succ low ih =>
    rw [← Nat.add_assoc, digits, ih, digits, Nat.div_div_eq_div_mul, ← Nat.pow_succ', List.append_assoc]

theorem digits_mod (width n : Nat) : digits width (n % 10 ^ width) = digits width n := by
  induction width generalizing n with
  | zero => rfl
  | succ width ih =>
    have high : n % 10 ^ (width + 1) / 10 = n / 10 % 10 ^ width := by
      rw [Nat.pow_succ', Nat.mod_mul_right_div_self]
    have low : n % 10 ^ (width + 1) % 10 = n % 10 := Nat.mod_mod_of_dvd n (Dvd.intro_left _ rfl)
    rw [digits, high, low, ih, digits]

theorem digits_zero (width : Nat) : digits width 0 = List.replicate width '0' := by
  induction width with
  | zero => rfl
  | succ width ih => rw [digits, Nat.zero_div, ih, List.replicate_succ']; rfl

theorem mem_digits {width n : Nat} {c : Char} (member : c ∈ digits width n) : '0' ≤ c ∧ c ≤ '9' := by
  induction width generalizing n with
  | zero => simp [digits] at member
  | succ width ih =>
    simp only [digits, List.mem_append, List.mem_singleton] at member
    rcases member with earlier | rfl
    · exact ih earlier
    · have all : ∀ d < 10, '0' ≤ Nat.digitChar d ∧ Nat.digitChar d ≤ '9' := by decide
      exact all (n % 10) (by omega)

theorem digits_zeros_iff (width n : Nat) : (∀ c ∈ digits width n, c = '0') ↔ 10 ^ width ∣ n := by
  have zeros : (∀ c ∈ digits width n, c = '0') ↔ digits width n = digits width 0 := by
    rw [digits_zero, List.eq_replicate_iff]
    simp
  have reduced : n % 10 ^ width < 10 ^ width := Nat.mod_lt _ (Nat.pow_pos (by omega))
  rw [zeros, ← digits_mod, digits_inj reduced (Nat.pow_pos (by omega)), Nat.dvd_iff_mod_eq_zero]

/-- How many digits a number has. -/
def width (n : Nat) : Nat := (Nat.toDigits 10 n).length

theorem width_pos (n : Nat) : 0 < width n := Nat.length_toDigits_pos

theorem lt_pow_width (n : Nat) : n < 10 ^ width n :=
  (Nat.length_toDigits_le_iff (by omega) (width_pos n)).mp (Nat.le_refl _)

theorem width_le_iff {n k : Nat} (positive : 0 < k) : width n ≤ k ↔ n < 10 ^ k :=
  Nat.length_toDigits_le_iff (by omega) positive

theorem toDigits_eq (n : Nat) : Nat.toDigits 10 n = digits (width n) n := by
  induction n using Nat.strongRecOn with
  | ind n ih =>
    unfold width
    by_cases small : n < 10
    · rw [Nat.toDigits_of_lt_base small]
      simp [digits, Nat.mod_eq_of_lt small]
    · rw [Nat.toDigits_of_base_le (by omega) (by omega), ih (n / 10) (by omega)]
      simp [digits, width]

/-- Zeros on the left fill a numeral to a width. -/
theorem padded_eq (least n : Nat) :
    List.replicate (least - width n) '0' ++ Nat.toDigits 10 n = digits (max least (width n)) n := by
  have total : max least (width n) = (least - width n) + width n := by omega
  rw [total, digits_add, toDigits_eq, Nat.div_eq_of_lt (lt_pow_width n), digits_zero]

/-- A number is known from its digits, however many zeros stand before it. -/
theorem digits_injective {k l m n : Nat} (left : m < 10 ^ k) (right : n < 10 ^ l) (same : digits k m = digits l n) : m = n := by
  have lengths := congrArg List.length same
  rw [length_digits, length_digits] at lengths
  subst lengths
  exact (digits_inj left right).mp same

theorem toString_nat_injective {m n : Nat} (same : (toString m).toList = (toString n).toList) : m = n := by
  have text (n : Nat) : (toString n).toList = digits (width n) n := Nat.toList_repr.trans (toDigits_eq n)
  rw [text, text] at same
  exact digits_injective (lt_pow_width m) (lt_pow_width n) same

/-- A minus sign is no digit. -/
theorem dash_not_mem_toString (n : Nat) : '-' ∉ (toString n).toList := by
  intro listed
  have text : (toString n).toList = digits (width n) n := Nat.toList_repr.trans (toDigits_eq n)
  rw [text] at listed
  exact absurd (mem_digits listed).1 (by decide)

theorem mem_toString_int {n : Int} {c : Char} (listed : c ∈ (toString n).toList) : ('0' ≤ c ∧ c ≤ '9') ∨ c = '-' := by
  have digit {n : Nat} (listed : c ∈ (toString n).toList) : '0' ≤ c ∧ c ≤ '9' := by
    rw [show (toString n).toList = digits (width n) n from Nat.toList_repr.trans (toDigits_eq n)] at listed
    exact mem_digits listed
  cases n with
  | ofNat n => exact .inl (digit listed)
  | negSucc n =>
    rw [show (toString (Int.negSucc n)).toList = '-' :: (toString (n + 1)).toList from String.toList_append] at listed
    rcases List.mem_cons.mp listed with dash | later
    · exact .inr dash
    · exact .inl (digit later)

/-- The last character of a number is a digit. -/
theorem toString_int_ends (n : Int) : ∃ front last, (toString n).toList = front ++ [last] ∧ '0' ≤ last ∧ last ≤ '9' := by
  have natural (n : Nat) : ∃ front last, (toString n).toList = front ++ [last] ∧ '0' ≤ last ∧ last ≤ '9' := by
    obtain ⟨k, positive⟩ := Nat.exists_eq_succ_of_ne_zero (width_pos n).ne'
    have text : (toString n).toList = digits (k + 1) n := by
      rw [show (toString n).toList = digits (width n) n from Nat.toList_repr.trans (toDigits_eq n), positive]
    refine ⟨_, _, text, @mem_digits (k + 1) n _ ?_⟩
    simp [digits]
  cases n with
  | ofNat n => exact natural n
  | negSucc n =>
    obtain ⟨front, last, text, digit⟩ := natural (n + 1)
    refine ⟨'-' :: front, last, ?_, digit⟩
    rw [show (toString (Int.negSucc n)).toList = '-' :: (toString (n + 1)).toList from String.toList_append, text]
    rfl

theorem toString_int_injective {m n : Int} (same : (toString m).toList = (toString n).toList) : m = n := by
  have negative (k : Nat) : (toString (Int.negSucc k)).toList = '-' :: (toString (k + 1)).toList := String.toList_append
  cases m with
  | ofNat m =>
    cases n with
    | ofNat n => exact congrArg Int.ofNat (toString_nat_injective same)
    | negSucc n =>
      have sign : '-' ∈ (toString m).toList := by
        rw [show (toString m).toList = _ from same, negative]
        exact .head _
      exact absurd sign (dash_not_mem_toString m)
  | negSucc m =>
    cases n with
    | ofNat n =>
      have sign : '-' ∈ (toString n).toList := by
        rw [show (toString n).toList = _ from same.symm, negative]
        exact .head _
      exact absurd sign (dash_not_mem_toString n)
    | negSucc n =>
      rw [negative, negative] at same
      have next := toString_nat_injective (List.cons.inj same).2
      exact congrArg Int.negSucc (Nat.succ.inj next)

section Widths

variable {short extra m n : Nat} {sep : Char} {u v : List Char}

/-- A numeral against a longer one: the digits beyond the shorter width meet the separator. -/
theorem numeral_lt_longer (below : ∀ c, '0' ≤ c → sep < c) (left : m < 10 ^ short) (right : n < 10 ^ (short + extra)) :
    digits short m ++ sep :: u < digits (short + extra) n ++ sep :: v ↔
      m < n / 10 ^ extra ∨ m = n / 10 ^ extra ∧ (0 < extra ∨ u < v) := by
  have high : n / 10 ^ extra < 10 ^ short := by
    apply Nat.div_lt_of_lt_mul
    rwa [← Nat.pow_add, Nat.add_comm]
  rw [digits_add, List.append_assoc, append_lt_append_iff (by simp), digits_lt_iff left high, digits_inj left high]
  cases extra with
  | zero => simp [digits]
  | succ extra =>
    have nonempty : digits (extra + 1) n ≠ [] := by simp [digits]
    obtain ⟨d, ds, eq⟩ := List.exists_cons_of_ne_nil nonempty
    have digit : d ∈ digits (extra + 1) n := by simp [eq]
    rw [eq, List.cons_append, List.cons_lt_cons_iff]
    simp [below d (mem_digits digit).1]

theorem longer_lt_numeral (below : ∀ c, '0' ≤ c → sep < c) (left : m < 10 ^ (short + extra)) (right : n < 10 ^ short) :
    digits (short + extra) m ++ sep :: u < digits short n ++ sep :: v ↔
      m / 10 ^ extra < n ∨ m / 10 ^ extra = n ∧ extra = 0 ∧ u < v := by
  have high : m / 10 ^ extra < 10 ^ short := by
    apply Nat.div_lt_of_lt_mul
    rwa [← Nat.pow_add, Nat.add_comm]
  rw [digits_add, List.append_assoc, append_lt_append_iff (by simp), digits_lt_iff high right, digits_inj high right]
  cases extra with
  | zero => simp [digits]
  | succ extra =>
    have nonempty : digits (extra + 1) m ≠ [] := by simp [digits]
    obtain ⟨d, ds, eq⟩ := List.exists_cons_of_ne_nil nonempty
    have digit : d ∈ digits (extra + 1) m := by simp [eq]
    have above := below d (mem_digits digit).1
    rw [eq, List.cons_append, List.cons_lt_cons_iff]
    simp [above.not_gt, above.ne']

end Widths

section Trailing

/-- A text without the zeros at its end. -/
def dropZeros (text : List Char) : List Char := text.rdropWhile (· == '0')

theorem dropZeros_append (x y : List Char) [Decidable (∀ c ∈ y, c = '0')] :
    dropZeros (x ++ y) = if ∀ c ∈ y, c = '0' then dropZeros x else x ++ dropZeros y := by
  unfold dropZeros List.rdropWhile
  rw [List.reverse_append, List.dropWhile_append]
  have empty : (y.reverse.dropWhile (· == '0')).isEmpty = true ↔ ∀ c ∈ y, c = '0' := by
    simp [List.isEmpty_iff, List.dropWhile_eq_nil_iff]
  by_cases zeros : ∀ c ∈ y, c = '0'
  · rw [if_pos (empty.mpr zeros), if_pos zeros]
  · rw [if_neg (fun h => zeros (empty.mp h)), if_neg zeros, List.reverse_append, List.reverse_reverse]

theorem dropZeros_prefix (x : List Char) : ∃ zeros, x = dropZeros x ++ zeros ∧ ∀ c ∈ zeros, c = '0' := by
  refine ⟨x.rtakeWhile (· == '0'), ?_, ?_⟩
  · rw [dropZeros, List.rdropWhile, List.rtakeWhile, ← List.reverse_append, List.takeWhile_append_dropWhile,
      List.reverse_reverse]
  · intro c member
    simpa using List.mem_rtakeWhile_imp member

theorem dropZeros_cons {a : Char} {r : List Char} (nonzero : ¬ ∀ c ∈ a :: r, c = '0') :
    ∃ s, dropZeros (a :: r) = a :: s := by
  obtain ⟨zeros, split, all⟩ := dropZeros_prefix (a :: r)
  cases kept : dropZeros (a :: r) with
  | nil =>
    rw [kept, List.nil_append] at split
    exact absurd (split ▸ all) nonzero
  | cons b s =>
    rw [kept, List.cons_append, List.cons.injEq] at split
    exact ⟨s, by rw [split.1]⟩

variable {w m n : Nat} {stop : Char} {u v : List Char}

/-- A fraction that continues another one sorts before it: a digit meets the final character. -/
theorem continued_lt (above : '9' < stop) {k high : Nat} (same : n / 10 ^ k = m / 10 ^ k) (divides : 10 ^ k ∣ m)
    (rest : ¬ 10 ^ k ∣ n) :
    dropZeros (digits (high + k) n) ++ stop :: v < dropZeros (digits (high + k) m) ++ stop :: u := by
  have nonzero : ¬ ∀ c ∈ digits k n, c = '0' := fun all => rest ((digits_zeros_iff k n).mp all)
  rw [digits_add high k m, digits_add high k n, same, dropZeros_append, if_neg nonzero, dropZeros_append,
    if_pos ((digits_zeros_iff k m).mpr divides)]
  obtain ⟨zeros, split, all⟩ := dropZeros_prefix (digits high (m / 10 ^ k))
  obtain ⟨more, whole, blank⟩ := dropZeros_prefix (digits k n)
  have nonempty : zeros ++ dropZeros (digits k n) ≠ [] := by
    intro empty
    rw [(List.append_eq_nil_iff.mp empty).2, List.nil_append] at whole
    exact nonzero (whole ▸ blank)
  obtain ⟨d, ds, eq⟩ := List.exists_cons_of_ne_nil nonempty
  have small : d ≤ '9' := by
    have first : d ∈ zeros ++ dropZeros (digits k n) := by simp [eq]
    rcases List.mem_append.mp first with zero | digit
    · rw [all d zero]
      decide
    · have listed : d ∈ digits k n := by
        rw [whole]
        exact List.mem_append_left _ digit
      exact (mem_digits listed).2
  calc digits high (m / 10 ^ k) ++ dropZeros (digits k n) ++ stop :: v
      = dropZeros (digits high (m / 10 ^ k)) ++ d :: (ds ++ stop :: v) := by
        rw [← List.cons_append, ← eq, ← List.append_assoc, ← List.append_assoc, ← split]
    _ < _ := append_cons_lt _ _ _ (small.trans_lt above)

/-- Fractions that part before either ends keep the order of their numbers. -/
theorem parted_lt (right : n < 10 ^ w) (less : m < n) (clear : ∀ k ≤ w, 10 ^ k ∣ m → m + 10 ^ k ≤ n) :
    dropZeros (digits w m) ++ u < dropZeros (digits w n) ++ v := by
  obtain ⟨c, a, b, r, s, smaller, first, second⟩ :=
    first_difference (by simp) ((digits_lt_iff (less.trans right) right).mpr less)
  have digit : '0' ≤ a := by
    have listed : a ∈ digits w m := by simp [first]
    exact (mem_digits listed).1
  have later : ¬ ∀ x ∈ b :: s, x = '0' := fun all => absurd (all b List.mem_cons_self) (digit.trans_lt smaller).ne'
  have earlier : ¬ ∀ x ∈ a :: r, x = '0' := by
    intro zeros
    -- the numbers agree up to the first difference, and only zeros follow in the smaller one
    have total : w = c.length + (r.length + 1) := by
      have := congrArg List.length first
      simpa using this
    have positive : 0 < 10 ^ (r.length + 1) := Nat.pow_pos (by omega)
    rw [total, digits_add] at first second
    have length : s.length = r.length := by
      have := congrArg List.length second
      simp at this
      omega
    obtain ⟨heads, tails⟩ := List.append_inj first (by simp)
    obtain ⟨heads', _⟩ := List.append_inj second (by simp)
    have divides : 10 ^ (r.length + 1) ∣ m := (digits_zeros_iff _ m).mp (tails ▸ zeros)
    have bound (x : Nat) (small : x < 10 ^ w) : x / 10 ^ (r.length + 1) < 10 ^ c.length := by
      apply Nat.div_lt_of_lt_mul
      rwa [← Nat.pow_add, Nat.add_comm, ← total]
    have same := (digits_inj (bound m (less.trans right)) (bound n right)).mp (heads.trans heads'.symm)
    have far := clear (r.length + 1) (by omega) divides
    obtain ⟨q, rfl⟩ := divides
    rw [Nat.mul_div_cancel_left q positive] at same
    have : n < 10 ^ (r.length + 1) * (q + 1) := by
      rw [same, Nat.mul_comm]
      exact Nat.lt_div_mul_add positive |>.trans_le (by rw [Nat.add_mul]; omega)
    rw [Nat.mul_add] at this
    omega
  obtain ⟨r', kept⟩ := dropZeros_cons earlier
  obtain ⟨s', kept'⟩ := dropZeros_cons later
  rw [first, second, dropZeros_append, if_neg earlier, dropZeros_append, if_neg later, kept, kept',
    List.append_assoc, List.append_assoc]
  exact append_cons_lt c (r' ++ u) (s' ++ v) smaller

/-- Without their trailing zeros, two fractions of one width are out of order exactly when
the larger one continues the smaller one. -/
theorem fraction_lt_iff (above : '9' < stop) (right : n < 10 ^ w) (less : m < n) :
    dropZeros (digits w m) ++ stop :: u < dropZeros (digits w n) ++ stop :: v ↔
      ¬ ∃ k ≤ w, 10 ^ k ∣ m ∧ n < m + 10 ^ k := by
  constructor
  · rintro ordered ⟨k, short, divides, near⟩
    obtain ⟨high, rfl⟩ := Nat.exists_eq_add_of_le' short
    obtain ⟨q, rfl⟩ := divides
    have positive : 0 < 10 ^ k := Nat.pow_pos (by omega)
    have same : n / 10 ^ k = q :=
      Nat.div_eq_of_lt_le (by rw [Nat.mul_comm]; omega) (by rw [Nat.succ_mul, Nat.mul_comm]; omega)
    have rest : ¬ 10 ^ k ∣ n := by
      intro divides
      have := Nat.mul_div_cancel' divides
      rw [same] at this
      omega
    exact absurd (continued_lt above (same.trans (Nat.mul_div_cancel_left q positive).symm) ⟨q, rfl⟩ rest) ordered.asymm
  · intro clear
    apply parted_lt right less
    intro k short divides
    by_contra near
    exact clear ⟨k, short, divides, by omega⟩

end Trailing

end Cronova.Text
