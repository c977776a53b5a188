import Cronova.Http.Path
import Mathlib.Algebra.Group.Nat.Defs

/-! Addresses of the internet, read by `net.ParseIP` and written by `IP.String`: what is written reads
as itself, so two addresses are written alike only if they are one. -/

set_option autoImplicit false

namespace Cronova.Http

/-! ### Numerals -/

def numeral (base : Nat) (text : List Char) : Option Nat :=
  text.foldlM (fun n c => (hexValue c).bind fun v => if v < base then some (base * n + v) else none) 0

theorem hexValue_digitChar : ∀ v < 16, hexValue (Nat.digitChar v) = some v := by decide

section Digits

variable {base : Nat} (large : 1 < base) (small : base ≤ 16)

include large small

theorem hexValue_of_mem_toDigits (n : Nat) : ∀ c ∈ Nat.toDigits base n, hexValue c ≠ none := by
  induction n using Nat.strongRecOn with
  | ind n ih =>
    intro c member
    by_cases last : n < base
    · rw [Nat.toDigits_of_lt_base last, List.mem_singleton] at member
      rw [member, hexValue_digitChar n (by omega)]
      simp
    · rw [Nat.toDigits_of_base_le large (by omega), List.mem_append, List.mem_singleton] at member
      rcases member with high | rfl
      · exact ih (n / base) (Nat.div_lt_self (by omega) large) c high
      · rw [hexValue_digitChar _ (Nat.lt_of_lt_of_le (Nat.mod_lt _ (by omega)) small)]
        simp

theorem numeral_toDigits (n : Nat) : numeral base (Nat.toDigits base n) = some n := by
  induction n using Nat.strongRecOn with
  | ind n ih =>
    by_cases last : n < base
    · rw [Nat.toDigits_of_lt_base last, numeral]
      simp [hexValue_digitChar n (by omega), last]
    · have low := Nat.mod_lt n (show 0 < base by omega)
      have front := ih (n / base) (Nat.div_lt_self (by omega) large)
      rw [numeral] at front ⊢
      rw [Nat.toDigits_of_base_le large (by omega), List.foldlM_append, front]
      simp [hexValue_digitChar _ (Nat.lt_of_lt_of_le low small), low, Nat.div_add_mod]

end Digits

/-! ### Addresses -/

/-- Sixteen bytes in groups of two; the addresses of version 4 are mapped behind `::ffff:0:0`. -/
structure IP where
  groups : List Nat
  eight : groups.length = 8
  small : ∀ g ∈ groups, g < 65536
  deriving DecidableEq

def IP.ofGroups (groups : List Nat) : Option IP :=
  if eight : groups.length = 8 then
    if small : ∀ g ∈ groups, g < 65536 then some ⟨groups, eight, small⟩ else none
  else none

theorem IP.ofGroups_groups (ip : IP) : IP.ofGroups ip.groups = some ip := by
  rw [ofGroups, dif_pos ip.eight, dif_pos ip.small]

/-- The four bytes of an address of version 4. -/
def IP.to4 (ip : IP) : Option (List Nat) :=
  match ip.groups with
  | [0, 0, 0, 0, 0, 65535, x, y] => some [x / 256, x % 256, y / 256, y % 256]
  | _ => none

/-- A decimal byte without leading zeros. -/
def octet (text : List Char) : Option Nat :=
  if text = [] ∨ text.head? = some '0' ∧ text.length ≠ 1 then none
  else (numeral 10 text).filter (· < 256)

def hexGroup (text : List Char) : Option Nat := if text = [] ∨ 4 < text.length then none else numeral 16 text

/-- The two groups of a dotted quad. -/
def dottedGroups (text : List Char) : Option (List Nat) :=
  match text.splitOn '.' with
  | [a, b, c, d] => do
    let a ← octet a
    let b ← octet b
    let c ← octet c
    let d ← octet d
    return [256 * a + b, 256 * c + d]
  | _ => none

/-- The last field may be a dotted quad. -/
def fieldGroups : List (List Char) → Option (List Nat)
  | [] => some []
  | [field] => if '.' ∈ field then dottedGroups field else (hexGroup field).map fun g => [g]
  | field :: fields => do
    let g ← hexGroup field
    let gs ← fieldGroups fields
    return g :: gs

def colonGroups (text : List Char) : Option (List Nat) := if text = [] then some [] else fieldGroups (text.splitOn ':')

/-- What stands before and after the first `::`. -/
def cutEllipsis : List Char → Option (List Char × List Char)
  | [] => none
  | [_] => none
  | c :: d :: rest =>
    if c = ':' ∧ d = ':' then some ([], rest) else (cutEllipsis (d :: rest)).map fun (front, back) => (c :: front, back)

def parseIPv4 (text : List Char) : Option IP := do
  let groups ← dottedGroups text
  IP.ofGroups ([0, 0, 0, 0, 0, 65535] ++ groups)

/-- The ellipsis stands for at least one group. -/
def parseIPv6 (text : List Char) : Option IP :=
  match cutEllipsis text with
  | none => do
    let groups ← colonGroups text
    IP.ofGroups groups
  | some (before, after) =>
    if '.' ∈ before then none
    else do
      let front ← colonGroups before
      let back ← colonGroups after
      if front.length + back.length < 8 then
        IP.ofGroups (front ++ List.replicate (8 - (front.length + back.length)) 0 ++ back)
      else none

/-- `net.ParseIP`. -/
def parseIP (text : List Char) : Option IP :=
  match text.find? fun c => c == '.' || c == ':' with
  | some '.' => parseIPv4 text
  | some _ => parseIPv6 text
  | none => none

def zerosAt (groups : List Nat) (i : Nat) : Nat := ((groups.drop i).takeWhile (· == 0)).length

/-- The run of zeros at a place, if it is longer than the best so far. -/
def longerRun (groups : List Nat) (best : Option (Nat × Nat)) (i : Nat) : Option (Nat × Nat) :=
  if 2 ≤ zerosAt groups i ∧ (best.map (·.2)).getD 0 < zerosAt groups i then some (i, zerosAt groups i) else best

/-- The first of the longest runs of at least two zeros: its start and its length. -/
def zeroRun (groups : List Nat) : Option (Nat × Nat) := (List.range groups.length).foldl (longerRun groups) none

def colons (groups : List Nat) : List Char := [':'].intercalate (groups.map (Nat.toDigits 16))

/-- `IP.String`. -/
def IP.string (ip : IP) : List Char :=
  match ip.to4 with
  | some bytes => ['.'].intercalate (bytes.map (Nat.toDigits 10))
  | none =>
    match zeroRun ip.groups with
    | none => colons ip.groups
    | some (i, l) => colons (ip.groups.take i) ++ ':' :: ':' :: colons (ip.groups.drop (i + l))

example : (parseIP "2001:db8::192.0.2.1".toList).map IP.string = some "2001:db8::c000:201".toList := by decide +kernel

example : parseIP "192.0.2.1:443".toList = none := by decide +kernel

/-! ### What is written reads as itself -/

theorem octet_toDigits : ∀ n < 256, octet (Nat.toDigits 10 n) = some n := by decide +kernel

theorem hexGroup_toDigits {n : Nat} (small : n < 65536) : hexGroup (Nat.toDigits 16 n) = some n := by
  have width : (Nat.toDigits 16 n).length ≤ 4 := (Nat.length_toDigits_le_iff (by omega) (by omega)).mpr small
  have given : Nat.toDigits 16 n ≠ [] := Nat.toDigits_ne_nil
  rw [hexGroup, if_neg (by simp [given, width]), numeral_toDigits (by omega) (by omega)]

/-- No separator is a digit. -/
theorem not_mem_toDigits {base : Nat} (large : 1 < base) (small : base ≤ 16) {c : Char} (separates : hexValue c = none) (n : Nat) :
    c ∉ Nat.toDigits base n := fun member => hexValue_of_mem_toDigits large small n c member separates

theorem colons_cons_cons (g h : Nat) (groups : List Nat) :
    colons (g :: h :: groups) = Nat.toDigits 16 g ++ ':' :: colons (h :: groups) := by
  simp [colons, List.intercalate]

@[simp] theorem colons_singleton (g : Nat) : colons [g] = Nat.toDigits 16 g := by simp [colons, List.intercalate]

theorem mem_colons {groups : List Nat} {c : Char} (member : c ∈ colons groups) : c = ':' ∨ hexValue c ≠ none := by
  induction groups with
  | nil => simp [colons, List.intercalate] at member
  | cons g rest ih =>
    cases rest with
    | nil => exact .inr (hexValue_of_mem_toDigits (by omega) (by omega) g c (colons_singleton g ▸ member))
    | cons h rest =>
      rw [colons_cons_cons, List.mem_append, List.mem_cons] at member
      rcases member with digit | rfl | later
      · exact .inr (hexValue_of_mem_toDigits (by omega) (by omega) g c digit)
      · exact .inl rfl
      · exact ih later

theorem dot_not_mem_colons (groups : List Nat) : '.' ∉ colons groups := by
  intro member
  rcases mem_colons member with same | digit
  · exact absurd same (by decide)
  · exact digit (by decide)

theorem colons_ne_nil {groups : List Nat} (nonempty : groups ≠ []) : colons groups ≠ [] := by
  cases groups with
  | nil => exact absurd rfl nonempty
  | cons g rest =>
    cases rest with
    | nil => simp
    | cons h rest =>
      rw [colons_cons_cons]
      simp

theorem fieldGroups_toDigits {groups : List Nat} (small : ∀ g ∈ groups, g < 65536) :
    fieldGroups (groups.map (Nat.toDigits 16)) = some groups := by
  induction groups with
  | nil => rfl
  | cons g rest ih =>
    have first := hexGroup_toDigits (small g List.mem_cons_self)
    cases rest with
    | nil =>
      have plain : '.' ∉ Nat.toDigits 16 g := not_mem_toDigits (by omega) (by omega) (by decide) g
      simp [fieldGroups, plain, first]
    | cons h rest =>
      have later := ih fun x member => small x (List.mem_cons_of_mem _ member)
      rw [List.map_cons] at later
      simp [fieldGroups, first, later]

theorem colonGroups_colons {groups : List Nat} (small : ∀ g ∈ groups, g < 65536) :
    colonGroups (colons groups) = some groups := by
  by_cases nonempty : groups = []
  · rw [nonempty]
    rfl
  · have split : (colons groups).splitOn ':' = groups.map (Nat.toDigits 16) := by
      refine List.splitOn_intercalate ':' (fun field member => ?_) (by simpa using nonempty)
      obtain ⟨g, -, rfl⟩ := List.mem_map.mp member
      exact not_mem_toDigits (by omega) (by omega) (by decide) g
    rw [colonGroups, if_neg (colons_ne_nil nonempty), split, fieldGroups_toDigits small]

/-- The first ellipsis is not among the digits before it. -/
theorem cutEllipsis_append {word : List Char} (free : ':' ∉ word) (text : List Char) :
    cutEllipsis (word ++ text) = (cutEllipsis text).map fun (front, back) => (word ++ front, back) := by
  induction word with
  | nil => simp
  | cons c word ih =>
    have other : c ≠ ':' := fun same => free (same ▸ List.mem_cons_self)
    have rest := ih fun later => free (List.mem_cons_of_mem _ later)
    cases tail : word ++ text with
    | nil =>
      rw [List.cons_append, tail]
      obtain ⟨-, rfl⟩ := List.append_eq_nil_iff.mp tail
      rfl
    | cons d more =>
      rw [List.cons_append, tail, cutEllipsis, if_neg fun both => other both.1, ← tail, rest, Option.map_map]
      rfl

/-- Nor is it among groups of digits, whatever follows them. -/
theorem cutEllipsis_colons (groups : List Nat) (text : List Char) :
    cutEllipsis (colons groups ++ text) = (cutEllipsis text).map fun (front, back) => (colons groups ++ front, back) := by
  have free (g : Nat) : ':' ∉ Nat.toDigits 16 g := not_mem_toDigits (by omega) (by omega) (by decide) g
  induction groups with
  | nil => simp [colons, List.intercalate]
  | cons g rest ih =>
    cases rest with
    | nil => rw [colons_singleton, cutEllipsis_append (free g)]
    | cons h rest =>
      -- The group after the colon starts with a digit.
      obtain ⟨c, digits, start, other⟩ : ∃ c digits, colons (h :: rest) ++ text = c :: digits ∧ c ≠ ':' := by
        cases shape : Nat.toDigits 16 h with
        | nil => exact absurd shape Nat.toDigits_ne_nil
        | cons c digits =>
          have other : c ≠ ':' := fun same => free h (by rw [shape, same]; exact List.mem_cons_self)
          cases rest with
          | nil => exact ⟨c, digits ++ text, by simp [shape], other⟩
          | cons i rest => exact ⟨c, digits ++ ':' :: (colons (i :: rest) ++ text), by simp [colons_cons_cons, shape], other⟩
      rw [colons_cons_cons, List.append_assoc, List.cons_append, cutEllipsis_append (free g), start, cutEllipsis,
        if_neg fun both => other both.2, ← start, ih, Option.map_map, Option.map_map]
      congr 1
      funext parts
      simp

theorem zeroRun_spec {groups : List Nat} {i l : Nat} (found : zeroRun groups = some (i, l)) :
    2 ≤ l ∧ l = zerosAt groups i := by
  have run : ∀ (is : List Nat) (best : Option (Nat × Nat)), (∀ p ∈ best, 2 ≤ p.2 ∧ p.2 = zerosAt groups p.1) →
      ∀ p ∈ is.foldl (longerRun groups) best, 2 ≤ p.2 ∧ p.2 = zerosAt groups p.1 := by
    intro is
    induction is with
    | nil => exact fun best holds => holds
    | cons i is ih =>
      intro best holds
      apply ih
      unfold longerRun
      split
      · rename_i longer
        intro p same
        cases same
        exact ⟨longer.1, rfl⟩
      · exact holds
  exact run _ none (by simp) (i, l) found

/-- The groups around a run of zeros. -/
theorem zerosAt_split (groups : List Nat) (i : Nat) :
    groups.take i ++ List.replicate (zerosAt groups i) 0 ++ groups.drop (i + zerosAt groups i) = groups := by
  have zeros : (groups.drop i).takeWhile (· == 0) = List.replicate (zerosAt groups i) 0 := by
    rw [List.eq_replicate_iff]
    exact ⟨rfl, fun g member => by simpa using List.mem_takeWhile_imp member⟩
  have rest : groups.drop (i + zerosAt groups i) = (groups.drop i).dropWhile (· == 0) := by
    conv => lhs; rw [← List.drop_drop, zerosAt, ← List.takeWhile_append_dropWhile (p := (· == 0)) (l := groups.drop i)]
    exact List.drop_left' (by simp)
  rw [← zeros, rest, List.append_assoc, List.takeWhile_append_dropWhile, List.take_append_drop]

/-- The first separator of a text that has only one kind of them. -/
theorem find_separator {text : List Char} {wanted other : Char}
    (kinds : ∀ c : Char, (c == '.' || c == ':') = true ↔ c = wanted ∨ c = other) (present : wanted ∈ text) (absent : other ∉ text) :
    text.find? (fun c => c == '.' || c == ':') = some wanted := by
  cases found : text.find? (fun c => c == '.' || c == ':') with
  | none => exact absurd ((kinds wanted).mpr (.inl rfl)) (List.find?_eq_none.mp found wanted present)
  | some c =>
    have separates := List.find?_some found
    rcases (kinds c).mp separates with same | same
    · rw [same]
    · exact absurd (same ▸ List.mem_of_find?_eq_some found) absent

theorem parseIP_colons {text : List Char} (present : ':' ∈ text) (absent : '.' ∉ text) : parseIP text = parseIPv6 text := by
  have kinds : ∀ c : Char, (c == '.' || c == ':') = true ↔ c = ':' ∨ c = '.' := by simp [or_comm]
  rw [parseIP, find_separator kinds present absent]
  rfl

def dotted (x y : Nat) : List Char := ['.'].intercalate ([x / 256, x % 256, y / 256, y % 256].map (Nat.toDigits 10))

theorem dottedGroups_dotted {x y : Nat} (left : x < 65536) (right : y < 65536) : dottedGroups (dotted x y) = some [x, y] := by
  have split : (dotted x y).splitOn '.' = [x / 256, x % 256, y / 256, y % 256].map (Nat.toDigits 10) := by
    refine List.splitOn_intercalate '.' (fun field member => ?_) (by simp)
    obtain ⟨n, -, rfl⟩ := List.mem_map.mp member
    exact not_mem_toDigits (by omega) (by omega) (by decide) n
  have first := octet_toDigits (x / 256) (by omega)
  have second := octet_toDigits (x % 256) (by omega)
  have third := octet_toDigits (y / 256) (by omega)
  have fourth := octet_toDigits (y % 256) (by omega)
  simp only [dottedGroups, split, List.map_cons, List.map_nil, first, second, third, fourth, Option.bind_eq_bind, Option.bind_some]
  simp [Nat.div_add_mod]

theorem dotted_eq (x y : Nat) : dotted x y = Nat.toDigits 10 (x / 256) ++ '.' :: (Nat.toDigits 10 (x % 256) ++ '.' ::
    (Nat.toDigits 10 (y / 256) ++ '.' :: Nat.toDigits 10 (y % 256))) := by
  simp [dotted, List.intercalate]

theorem parseIP_dotted {x y : Nat} (left : x < 65536) (right : y < 65536) :
    parseIP (dotted x y) = IP.ofGroups [0, 0, 0, 0, 0, 65535, x, y] := by
  have kinds : ∀ c : Char, (c == '.' || c == ':') = true ↔ c = '.' ∨ c = ':' := by simp
  have free (n : Nat) : ':' ∉ Nat.toDigits 10 n := not_mem_toDigits (by omega) (by omega) (by decide) n
  have present : '.' ∈ dotted x y := by simp [dotted_eq]
  have absent : ':' ∉ dotted x y := by simp [dotted_eq, free]
  have separator := find_separator kinds present absent
  rw [parseIP, separator]
  change parseIPv4 _ = _
  rw [parseIPv4, dottedGroups_dotted left right]
  rfl

/-- An address is read back from the text that it is written as. -/
theorem parseIP_string (ip : IP) : parseIP ip.string = some ip := by
  unfold IP.string
  cases four : ip.to4 with
  | some bytes =>
    unfold IP.to4 at four
    split at four
    · rename_i x y shape
      cases four
      have left : x < 65536 := ip.small x (by simp [shape])
      have right : y < 65536 := ip.small y (by simp [shape])
      change parseIP (dotted x y) = _
      rw [parseIP_dotted left right, ← shape, IP.ofGroups_groups]
    · cases four
  | none =>
    dsimp only
    split
    · have none : cutEllipsis (colons ip.groups) = none := by
        have cut := cutEllipsis_colons ip.groups []
        rwa [List.append_nil] at cut
      have present : ':' ∈ colons ip.groups := by
        have eight := ip.eight
        match groups : ip.groups with
        | [] => simp [groups] at eight
        | [_] => simp [groups] at eight
        | g :: h :: rest =>
          rw [colons_cons_cons]
          simp
      rw [parseIP_colons present (dot_not_mem_colons _), parseIPv6, none]
      simp only [colonGroups_colons ip.small, Option.bind_eq_bind, Option.bind_some, IP.ofGroups_groups]
    · rename_i i l run
      obtain ⟨long, width⟩ := zeroRun_spec run
      have parts := zerosAt_split ip.groups i
      rw [← width] at parts
      have front : ∀ g ∈ ip.groups.take i, g < 65536 := fun g member => ip.small g (List.mem_of_mem_take member)
      have back : ∀ g ∈ ip.groups.drop (i + l), g < 65536 := fun g member => ip.small g (List.mem_of_mem_drop member)
      have total := congrArg List.length parts
      simp only [List.length_append, List.length_replicate, ip.eight] at total
      have cut : cutEllipsis (colons (ip.groups.take i) ++ ':' :: ':' :: colons (ip.groups.drop (i + l))) =
          some (colons (ip.groups.take i), colons (ip.groups.drop (i + l))) := by
        rw [cutEllipsis_colons]
        simp [cutEllipsis]
      have dots : '.' ∉ colons (ip.groups.take i) ++ ':' :: ':' :: colons (ip.groups.drop (i + l)) := by
        simp [dot_not_mem_colons]
      have zeros : 8 - ((ip.groups.take i).length + (ip.groups.drop (i + l)).length) = l := by omega
      rw [parseIP_colons (by simp) dots, parseIPv6, cut]
      simp only [if_neg (dot_not_mem_colons _), colonGroups_colons front, colonGroups_colons back, Option.bind_eq_bind,
        Option.bind_some, if_pos (show (ip.groups.take i).length + (ip.groups.drop (i + l)).length < 8 by omega), zeros, parts,
        IP.ofGroups_groups]

theorem IP.string_injective : Function.Injective IP.string := by
  intro a b same
  have read := congrArg parseIP same
  rw [parseIP_string, parseIP_string] at read
  exact Option.some.inj read

/-- An address is written with digits and separators alone. -/
theorem mem_string {ip : IP} {c : Char} (member : c ∈ ip.string) : c = '.' ∨ c = ':' ∨ hexValue c ≠ none := by
  unfold IP.string at member
  split at member
  · rename_i bytes four
    unfold IP.to4 at four
    split at four
    · rename_i x y shape
      cases four
      change c ∈ dotted x y at member
      have digit (n : Nat) (found : c ∈ Nat.toDigits 10 n) : hexValue c ≠ none :=
        hexValue_of_mem_toDigits (by omega) (by omega) n c found
      simp only [dotted_eq, List.mem_append, List.mem_cons] at member
      rcases member with found | rfl | found | rfl | found | rfl | found
      · exact .inr (.inr (digit _ found))
      · exact .inl rfl
      · exact .inr (.inr (digit _ found))
      · exact .inl rfl
      · exact .inr (.inr (digit _ found))
      · exact .inl rfl
      · exact .inr (.inr (digit _ found))
    · cases four
  · split at member
    · exact .inr (mem_colons member)
    · simp only [List.mem_append, List.mem_cons] at member
      rcases member with front | rfl | rfl | back
      · exact .inr (mem_colons front)
      · exact .inr (.inl rfl)
      · exact .inr (.inl rfl)
      · exact .inr (mem_colons back)

/-! ### Networks and host names with ports -/

def IP.value (ip : IP) : Nat := ip.groups.foldl (fun n g => 65536 * n + g) 0

def IP.isLoopback (ip : IP) : Bool :=
  match ip.to4 with
  | some bytes => bytes.head? == some 127
  | none => ip.groups == [0, 0, 0, 0, 0, 0, 0, 1]

/-- The network of a CIDR: the addresses of its family that share its first `ones` bits. -/
structure IPNet where
  v4 : Bool
  base : Nat
  ones : Nat
  deriving DecidableEq, Repr

def IPNet.contains (n : IPNet) (ip : IP) : Bool :=
  match ip.to4 with
  | some _ => n.v4 && ip.value % 2 ^ 32 / 2 ^ (32 - n.ones) == n.base / 2 ^ (32 - n.ones)
  | none => !n.v4 && ip.value / 2 ^ (128 - n.ones) == n.base / 2 ^ (128 - n.ones)

/-- What stands before and after the last colon. -/
def cutLastColon : List Char → Option (List Char × List Char)
  | [] => none
  | c :: rest =>
    match cutLastColon rest with
    | some (front, back) => some (c :: front, back)
    | none => if c = ':' then some ([], rest) else none

/-- `net.SplitHostPort`; a bracketed host may hold colons. -/
def splitHostPort (hostport : List Char) : Option (List Char × List Char) := do
  let (front, port) ← cutLastColon hostport
  match hostport with
  | '[' :: inner =>
    let host := inner.takeWhile (· ≠ ']')
    if front = '[' :: host ++ [']'] ∧ '[' ∉ inner ∧ ']' ∉ port then some (host, port) else none
  | _ => if ':' ∈ front ∨ '[' ∈ hostport ∨ ']' ∈ hostport then none else some (front, port)

end Cronova.Http
