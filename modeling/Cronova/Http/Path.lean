import Mathlib.Data.List.Forall2
import Mathlib.Data.List.TakeWhile

/-! Paths of URLs: percent escapes and segments. A byte is a character below 256. -/

set_option autoImplicit false

namespace Cronova.Http

/-- The value of a hexadecimal digit. -/
def hexValue (c : Char) : Option Nat :=
  if '0' ≤ c ∧ c ≤ '9' then some (c.toNat - 48)
  else if 'a' ≤ c ∧ c ≤ 'f' then some (c.toNat - 87)
  else if 'A' ≤ c ∧ c ≤ 'F' then some (c.toNat - 55)
  else none

/-- The byte that an escape stands for. -/
def escaped (high low : Char) : Option Char := do
  let h ← hexValue high
  let l ← hexValue low
  return Char.ofNat (16 * h + l)

/-- `url.PathUnescape`. -/
def unescape : List Char → Option (List Char)
  | [] => some []
  | c :: rest =>
    if c = '%' then
      match rest with
      | high :: low :: rest => do
        let byte ← escaped high low
        let plain ← unescape rest
        return byte :: plain
      | _ => none
    else do
      let plain ← unescape rest
      return c :: plain

theorem unescape_cons {c : Char} (ordinary : c ≠ '%') (rest : List Char) :
    unescape (c :: rest) = (unescape rest).map (c :: ·) := by
  conv => lhs; unfold unescape
  rw [if_neg ordinary]
  cases unescape rest <;> rfl

/-- A text without escapes stands for itself. -/
theorem unescape_ordinary {text : List Char} (ordinary : '%' ∉ text) : unescape text = some text := by
  induction text with
  | nil => rfl
  | cons c rest ih =>
    have first : c ≠ '%' := fun same => ordinary (same ▸ List.mem_cons_self)
    rw [unescape_cons first, ih fun later => ordinary (List.mem_cons_of_mem _ later), Option.map_some]

/-- A slash is no digit of an escape. -/
theorem unescape_slash (front back : List Char) :
    unescape (front ++ '/' :: back) = (unescape front).bind fun x => (unescape back).map fun y => x ++ '/' :: y := by
  have slash : hexValue '/' = none := by decide
  have high (low : Char) : escaped '/' low = none := rfl
  have low (high : Char) : escaped high '/' = none := by simp [escaped, slash]
  fun_induction unescape front with
  | case1 =>
    rw [List.nil_append, unescape_cons (by decide)]
    simp
  | case2 high low rest ih =>
    simp only [List.cons_append, unescape, ih]
    cases escaped high low <;> cases unescape rest <;> cases unescape back <;> rfl
  | case3 rest short =>
    match rest, short with
    | [], _ => cases back <;> simp [unescape, high]
    | [c], _ => simp [unescape, low]
    | a :: b :: rest, short => exact absurd rfl (short a b rest)
  | case4 c rest ordinary ih =>
    rw [List.cons_append, unescape_cons ordinary, ih]
    cases unescape rest <;> cases unescape back <;> rfl

/-- The parts of a path between slashes. -/
def segments (path : List Char) : List (List Char) := path.splitOn '/'

def join (segs : List (List Char)) : List Char := ['/'].intercalate segs

@[simp] theorem join_singleton (seg : List Char) : join [seg] = seg := by simp [join, List.intercalate]

theorem join_cons_cons (seg next : List Char) (segs : List (List Char)) :
    join (seg :: next :: segs) = seg ++ '/' :: join (next :: segs) := by
  simp [join, List.intercalate, List.intersperse]

/-- A path stands for what its segments stand for. -/
theorem unescape_join {segs : List (List Char)} (nonempty : segs ≠ []) {plain : List Char} :
    unescape (join segs) = some plain ↔
      ∃ plains, List.Forall₂ (fun raw text => unescape raw = some text) segs plains ∧ join plains = plain := by
  induction segs generalizing plain with
  | nil => exact absurd rfl nonempty
  | cons seg segs ih =>
    cases segs with
    | nil =>
      rw [join_singleton]
      constructor
      · intro read
        exact ⟨[plain], .cons read .nil, join_singleton plain⟩
      · rintro ⟨plains, each, rfl⟩
        obtain ⟨text, _, read, ⟨⟩, rfl⟩ := List.forall₂_cons_left_iff.mp each
        rw [read, join_singleton]
    | cons next segs =>
      simp only [join_cons_cons, unescape_slash, Option.bind_eq_some_iff, Option.map_eq_some_iff, ih (List.cons_ne_nil next segs)]
      constructor
      · rintro ⟨text, read, _, ⟨plains, each, rfl⟩, rfl⟩
        refine ⟨text :: plains, .cons read each, ?_⟩
        obtain ⟨first, rest, _, _, rfl⟩ := List.forall₂_cons_left_iff.mp each
        exact join_cons_cons text first rest
      · rintro ⟨plains, each, rfl⟩
        obtain ⟨text, rest, read, later, rfl⟩ := List.forall₂_cons_left_iff.mp each
        refine ⟨text, read, join rest, ⟨rest, later, rfl⟩, ?_⟩
        obtain ⟨first, rest, _, _, rfl⟩ := List.forall₂_cons_left_iff.mp later
        exact (join_cons_cons text first rest).symm

/-- What a path stands for, segment by segment. -/
theorem unescape_segments {path plain : List Char} (read : unescape path = some plain) :
    ∃ plains, List.Forall₂ (fun raw text => unescape raw = some text) (segments path) plains ∧ join plains = plain := by
  refine (unescape_join (List.splitOn_ne_nil '/' path)).mp ?_
  rw [join, List.intercalate_splitOn]
  exact read

theorem segments_join {segs : List (List Char)} (nonempty : segs ≠ []) (free : ∀ seg ∈ segs, '/' ∉ seg) : segments (join segs) = segs :=
  List.splitOn_intercalate '/' free nonempty

/-! ### Prefixes and suffixes of paths -/

/-- `strings.CutPrefix`. -/
def cutPrefix (start text : List Char) : Option (List Char) := if start.isPrefixOf text then some (text.drop start.length) else none

/-- The part before a slash. -/
def firstSegment (text : List Char) : List Char := text.takeWhile (· ≠ '/')

theorem cutPrefix_eq_some {start text rest : List Char} : cutPrefix start text = some rest ↔ text = start ++ rest := by
  unfold cutPrefix
  constructor
  · intro cut
    split at cut
    · rename_i begins
      obtain ⟨tail, rfl⟩ := List.isPrefixOf_iff_prefix.mp begins
      cases cut
      rw [List.drop_left]
    · cases cut
  · rintro rfl
    rw [if_pos (List.isPrefixOf_iff_prefix.mpr (List.prefix_append _ _)), List.drop_left]

theorem starts_iff_cut {start text : List Char} : start.isPrefixOf text = true ↔ ∃ rest, cutPrefix start text = some rest := by
  rw [List.isPrefixOf_iff_prefix]
  exact exists_congr fun rest => eq_comm.trans cutPrefix_eq_some.symm

section Segments

variable {seg word front rest : List Char} {segs : List (List Char)}

theorem firstSegment_self (free : '/' ∉ seg) : firstSegment seg = seg :=
  List.takeWhile_eq_self_iff.mpr fun _ listed => decide_eq_true fun same => free (same ▸ listed)

theorem firstSegment_append (free : '/' ∉ seg) : firstSegment (seg ++ '/' :: rest) = seg := by
  have every : ∀ c ∈ seg, decide (c ≠ '/') = true := fun c listed => decide_eq_true fun same => free (same ▸ listed)
  rw [firstSegment, List.takeWhile_append_of_pos every]
  simp

theorem firstSegment_join (free : '/' ∉ seg) : firstSegment (join (seg :: segs)) = seg := by
  cases segs with
  | nil => rw [join_singleton, firstSegment_self free]
  | cons next segs => rw [join_cons_cons, firstSegment_append free]

/-- Two texts agree when they agree up to their first slash and after it. -/
theorem first_slash {x y : List Char} (free : '/' ∉ seg) (plain : '/' ∉ word) :
    seg ++ '/' :: x = word ++ '/' :: y ↔ seg = word ∧ x = y := by
  constructor
  · intro same
    have first := congrArg firstSegment same
    rw [firstSegment_append free, firstSegment_append plain] at first
    subst first
    exact ⟨rfl, List.tail_eq_of_cons_eq (List.append_cancel_left same)⟩
  · rintro ⟨rfl, rfl⟩
    rfl

/-- A path starts with a word and a slash when the word is its first segment, and not its last. -/
theorem join_eq_word_slash (free : '/' ∉ seg) (plain : '/' ∉ word) :
    join (seg :: segs) = word ++ '/' :: rest ↔ seg = word ∧ segs ≠ [] ∧ join segs = rest := by
  cases segs with
  | nil =>
    rw [join_singleton]
    constructor
    · rintro rfl
      simp at free
    · rintro ⟨_, none, _⟩
      exact absurd rfl none
  | cons next segs =>
    rw [join_cons_cons, first_slash free plain]
    simp

/-- A text ends with a slash and a word when the word is what follows its last slash. -/
theorem slash_suffix {last : List Char} (free : '/' ∉ last) (plain : '/' ∉ word) : '/' :: word <:+ front ++ '/' :: last ↔ last = word := by
  constructor
  · rintro ⟨start, same⟩
    have mirrored := congrArg List.reverse same
    simp only [List.reverse_append, List.reverse_cons, List.append_assoc, List.singleton_append] at mirrored
    have ends := (first_slash (by simpa using plain) (by simpa using free)).mp mirrored
    exact (List.reverse_injective ends.1).symm
  · rintro rfl
    exact List.suffix_append _ _

/-- The last segment decides whether a path ends with a slash and a word, also where it holds
slashes of its own. -/
theorem slash_suffix_last {last : List Char} (plain : '/' ∉ word) : '/' :: word <:+ front ++ '/' :: last ↔ '/' :: word <:+ '/' :: last := by
  have inside : '/' :: last <:+ front ++ '/' :: last := List.suffix_append _ _
  constructor
  · intro ends
    rcases Nat.le_total ('/' :: word).length ('/' :: last).length with short | long
    · exact List.suffix_of_suffix_length_le ends inside short
    · obtain ⟨start, same⟩ := List.suffix_of_suffix_length_le inside ends long
      cases start with
      | nil => exact ⟨[], same.symm⟩
      | cons c start =>
        refine absurd ?_ plain
        rw [← List.tail_eq_of_cons_eq same]
        simp
  · exact fun ends => ends.trans inside

theorem slash_join_last {last : List Char} (ends : segs.getLast? = some last) : ∃ front, '/' :: join segs = front ++ '/' :: last := by
  induction segs with
  | nil => cases ends
  | cons seg segs ih =>
    cases segs with
    | nil =>
      obtain rfl : seg = last := by simpa using ends
      exact ⟨[], by rw [join_singleton, List.nil_append]⟩
    | cons next segs =>
      obtain ⟨front, same⟩ := ih (by simpa using ends)
      exact ⟨'/' :: seg ++ front, by rw [join_cons_cons, same]; simp⟩

end Segments

end Cronova.Http
