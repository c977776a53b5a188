import Mathlib.Data.List.Pairwise
import Mathlib.Data.List.Perm.Subperm
import Mathlib.Data.List.Sort

/-! Tables of rows under uniqueness constraints.

`key` are the columns that constraints speak about and `apart` is what they demand of two
rows' keys. A `Table` cannot hold two rows that clash, so inserting may be refused and an
update has to leave the keys alone.
-/

set_option autoImplicit false

namespace Cronova

structure Table {R K : Type} (key : R → K) (apart : K → K → Prop) where
  rows : List R
  distinct : (rows.map key).Pairwise apart

namespace Table

variable {R K : Type} {key : R → K} {apart : K → K → Prop}

instance : Membership R (Table key apart) := ⟨fun t r => r ∈ t.rows⟩

theorem mem_def (t : Table key apart) (r : R) : r ∈ t ↔ r ∈ t.rows := Iff.rfl

def empty : Table key apart := ⟨[], List.Pairwise.nil⟩

/-- Rows appear in the order in which they were inserted. -/
def insert? [DecidableRel apart] (t : Table key apart) (r : R) : Option (Table key apart) :=
  if fresh : ∀ k ∈ t.rows.map key, apart k (key r) then
    some ⟨t.rows ++ [r], by
      simp only [List.map_append, List.map_cons, List.map_nil]
      exact List.pairwise_append.mpr ⟨t.distinct, List.pairwise_singleton _ _, by simpa using fresh⟩⟩
  else none

/-- Rewrite the selected rows; the rewriting keeps every key column. -/
def modify (t : Table key apart) (selects : R → Bool) (f : R → R) (same : ∀ r, key (f r) = key r) :
    Table key apart where
  rows := t.rows.map fun r => if selects r then f r else r
  distinct := by
    have keys : (t.rows.map fun r => if selects r then f r else r).map key = t.rows.map key := by
      rw [List.map_map]
      apply List.map_congr_left
      intro r _
      simp only [Function.comp_apply]
      split <;> simp [same]
    rw [keys]
    exact t.distinct

/-- `DELETE … WHERE`: the selected rows are gone, the others keep their order. -/
def delete (t : Table key apart) (selects : R → Bool) : Table key apart where
  rows := t.rows.filter (!selects ·)
  distinct := t.distinct.sublist (List.filter_sublist.map _)

theorem mem_delete {t : Table key apart} {selects : R → Bool} {r : R} :
    r ∈ t.delete selects ↔ r ∈ t ∧ selects r = false := by
  simp [mem_def, delete]

theorem delete_delete (t : Table key apart) (first second : R → Bool) :
    (t.delete first).delete second = t.delete fun r => first r || second r := by
  simp [delete, List.filter_filter, Bool.and_comm]

theorem delete_eq_self {t : Table key apart} {selects : R → Bool} (none : ∀ r ∈ t, selects r = false) :
    t.delete selects = t := by
  have rows : t.rows.filter (!selects ·) = t.rows := by
    rw [List.filter_eq_self]
    intro r member
    simp [none r member]
  cases t
  simpa [delete] using rows

section Insert

variable [DecidableRel apart] {t u : Table key apart} {r : R}

theorem insert?_some (inserted : t.insert? r = some u) :
    u.rows = t.rows ++ [r] ∧ ∀ x ∈ t, apart (key x) (key r) := by
  unfold insert? at inserted
  split at inserted
  · rename_i fresh
    cases inserted
    exact ⟨rfl, fun x member => fresh (key x) (List.mem_map_of_mem member)⟩
  · cases inserted

theorem mem_insert? (inserted : t.insert? r = some u) (x : R) : x ∈ u ↔ x ∈ t ∨ x = r := by
  rw [mem_def, (insert?_some inserted).1]
  simp [mem_def]

theorem insert?_none (refused : t.insert? r = none) : ∃ x ∈ t, ¬ apart (key x) (key r) := by
  unfold insert? at refused
  split at refused
  · cases refused
  · rename_i clash
    simpa [mem_def] using clash

theorem insert?_isSome (fresh : ∀ x ∈ t, apart (key x) (key r)) : ∃ u, t.insert? r = some u := by
  cases inserted : t.insert? r with
  | some u => exact ⟨u, rfl⟩
  | none =>
    obtain ⟨x, member, clash⟩ := insert?_none inserted
    exact absurd (fresh x member) clash

end Insert

section Modify

variable (t : Table key apart) (selects : R → Bool) (f : R → R) (same : ∀ r, key (f r) = key r)

theorem keys_modify : (t.modify selects f same).rows.map key = t.rows.map key := by
  rw [modify, List.map_map]
  apply List.map_congr_left
  intro r _
  simp only [Function.comp_apply]
  split <;> simp [same]

theorem mem_modify (r : R) :
    r ∈ t.modify selects f same ↔ ∃ x ∈ t, (if selects x then f x else x) = r := by
  simp [mem_def, modify]

/-- A row after an update is an untouched row or a rewritten one. -/
theorem mem_modify_iff (r : R) :
    r ∈ t.modify selects f same ↔ (r ∈ t ∧ selects r = false) ∨ ∃ x ∈ t, selects x = true ∧ f x = r := by
  rw [mem_modify]
  constructor
  · rintro ⟨x, found, rfl⟩
    cases chosen : selects x with
    | false => exact .inl ⟨by simpa [chosen] using found, by simp [chosen]⟩
    | true => exact .inr ⟨x, found, chosen, by simp⟩
  · rintro (⟨member, passed⟩ | ⟨x, member, chosen, rfl⟩)
    · exact ⟨r, member, by simp [passed]⟩
    · exact ⟨x, member, by simp [chosen]⟩

variable {t selects f same}

theorem modify_eq_self (none : ∀ x ∈ t, selects x = false) : t.modify selects f same = t := by
  have rows : (t.rows.map fun r => if selects r then f r else r) = t.rows := by
    calc (t.rows.map fun r => if selects r then f r else r) = t.rows.map id :=
          List.map_congr_left fun x member => by simp [none x member]
      _ = t.rows := List.map_id _
  cases t
  simpa [modify] using rows

end Modify

section Find

/-- A lookup by key columns sees an update through the row that it finds. -/
theorem find?_modify (t : Table key apart) (selects : R → Bool) (f : R → R) (same : ∀ r, key (f r) = key r)
    (wanted : K → Bool) :
    (t.modify selects f same).rows.find? (fun r => wanted (key r)) =
      (t.rows.find? fun r => wanted (key r)).map fun r => if selects r then f r else r := by
  have blind : (fun r => wanted (key r)) ∘ (fun r => if selects r then f r else r) = fun r => wanted (key r) := by
    funext r
    simp only [Function.comp_apply]
    split <;> simp [same]
  rw [modify, List.find?_map, blind]

theorem find?_insert? [DecidableRel apart] {t u : Table key apart} {r : R} (inserted : t.insert? r = some u)
    (wanted : K → Bool) :
    u.rows.find? (fun r => wanted (key r)) =
      (t.rows.find? fun r => wanted (key r)).or (if wanted (key r) then some r else none) := by
  rw [(insert?_some inserted).1, List.find?_append, List.find?_singleton]

end Find

/-- Two rows whose keys clash are one row. -/
theorem eq_of_clash (symm : ∀ a b, apart a b → apart b a) {t : Table key apart} {x y : R}
    (left : x ∈ t) (right : y ∈ t) (clash : ¬ apart (key x) (key y)) : x = y := by
  have pairs : t.rows.Pairwise fun a b => apart (key a) (key b) := List.pairwise_map.mp t.distinct
  by_contra differ
  have symmetric : Std.Symm fun a b : R => apart (key a) (key b) := ⟨fun a b => symm _ _⟩
  exact clash (pairs.forall left right differ)

end Table

/-! ### Keys that identify a row -/

namespace Table

section Lookup

variable {R K : Type} [DecidableEq K] {key : R → K}

def lookup (t : Table key (· ≠ ·)) (k : K) : Option R := t.rows.find? (key · == k)

/-- The row replaces the one with its key, or comes last. -/
def put (t : Table key (· ≠ ·)) (r : R) : Table key (· ≠ ·) :=
  match t.insert? r with
  | some u => u
  | none =>
    { rows := t.rows.map fun x => if key x = key r then r else x
      distinct := by
        have keys : (t.rows.map fun x => if key x = key r then r else x).map key = t.rows.map key := by
          rw [List.map_map]
          apply List.map_congr_left
          intro x _
          simp only [Function.comp_apply]
          split
          · rename_i same
            exact same.symm
          · rfl
        rw [keys]
        exact t.distinct }

variable {t : Table key (· ≠ ·)} {k : K} {r : R}

theorem key_of_lookup (found : t.lookup k = some r) : key r = k := by
  have same := List.find?_some found
  simpa using same

theorem mem_of_lookup (found : t.lookup k = some r) : r ∈ t := List.mem_of_find?_eq_some found

theorem lookup_of_mem (member : r ∈ t) : t.lookup (key r) = some r := by
  cases found : t.lookup (key r) with
  | none =>
    have absent := List.find?_eq_none.mp found r member
    simp at absent
  | some x =>
    have same : x = r := eq_of_clash (fun _ _ => Ne.symm) (mem_of_lookup found) member (not_not.mpr (key_of_lookup found))
    rw [same]

theorem lookup_eq_none : t.lookup k = none ↔ ∀ r ∈ t, key r ≠ k := by
  simp [lookup, List.find?_eq_none, mem_def]

/-- A table finds what a lookup of another one tells, if both hold the same rows under the key. -/
theorem lookup_eq_of_mem {u : Table key (· ≠ ·)} {x : Option R} (rows : ∀ r, r ∈ u ∧ key r = k ↔ x = some r) :
    u.lookup k = x := by
  cases found : u.lookup k with
  | some r => exact ((rows r).mp ⟨mem_of_lookup found, key_of_lookup found⟩).symm
  | none =>
    cases x with
    | none => rfl
    | some r =>
      obtain ⟨member, same⟩ := (rows r).mpr rfl
      exact absurd same (lookup_eq_none.mp found r member)

theorem mem_put (x : R) : x ∈ t.put r ↔ x = r ∨ x ∈ t ∧ key x ≠ key r := by
  unfold put
  split
  · rename_i u inserted
    have fresh := (insert?_some inserted).2
    rw [mem_insert? inserted]
    constructor
    · rintro (member | same)
      · exact .inr ⟨member, fresh x member⟩
      · exact .inl same
    · rintro (same | ⟨member, -⟩)
      · exact .inr same
      · exact .inl member
  · rename_i refused
    obtain ⟨y, known, clash⟩ := insert?_none refused
    rw [mem_def, List.mem_map]
    constructor
    · rintro ⟨z, member, rfl⟩
      split
      · exact .inl rfl
      · rename_i other
        exact .inr ⟨member, other⟩
    · rintro (rfl | ⟨member, other⟩)
      · exact ⟨y, known, if_pos (not_not.mp clash)⟩
      · exact ⟨x, member, if_neg other⟩

theorem lookup_put : (t.put r).lookup k = if k = key r then some r else t.lookup k := by
  apply lookup_eq_of_mem
  intro x
  rw [mem_put]
  split
  · rename_i own
    subst own
    constructor
    · rintro ⟨rfl | ⟨-, other⟩, same⟩
      · rfl
      · exact absurd same other
    · intro same
      cases same
      exact ⟨.inl rfl, rfl⟩
  · rename_i other
    constructor
    · rintro ⟨rfl | ⟨member, -⟩, rfl⟩
      · exact absurd rfl other
      · exact lookup_of_mem member
    · intro found
      have same := key_of_lookup found
      exact ⟨.inr ⟨mem_of_lookup found, same ▸ other⟩, same⟩

theorem lookup_delete (selects : R → Bool) : (t.delete selects).lookup k = (t.lookup k).filter (!selects ·) := by
  apply lookup_eq_of_mem
  intro x
  rw [mem_delete, Option.filter_eq_some_iff]
  constructor
  · rintro ⟨⟨member, kept⟩, rfl⟩
    exact ⟨lookup_of_mem member, by simp [kept]⟩
  · rintro ⟨found, kept⟩
    exact ⟨⟨mem_of_lookup found, by simpa using kept⟩, key_of_lookup found⟩

theorem lookup_modify (selects : R → Bool) (f : R → R) (same : ∀ r, key (f r) = key r) :
    (t.modify selects f same).lookup k = (t.lookup k).map fun r => if selects r then f r else r :=
  t.find?_modify selects f same (· == k)

end Lookup

section Counts

variable {R K : Type} {key : R → K} {t : Table key (· ≠ ·)}

/-- Rows that are counted in one table come, key by key, from rows counted in another. -/
theorem countP_le_countP {u : Table key (· ≠ ·)} {p q : R → Bool}
    (came : ∀ r ∈ u, p r = true → ∃ x ∈ t, q x = true ∧ key x = key r) : u.rows.countP p ≤ t.rows.countP q := by
  rw [List.countP_eq_length_filter, List.countP_eq_length_filter, ← List.length_map (f := key), ← List.length_map (f := key)]
  have keys : ((u.rows.filter p).map key).Nodup := List.Pairwise.sublist (List.filter_sublist.map _) u.distinct
  apply List.Subperm.length_le
  apply List.subperm_of_subset keys
  intro k member
  obtain ⟨r, counted, rfl⟩ := List.mem_map.mp member
  obtain ⟨x, known, chosen, same⟩ := came r (List.mem_filter.mp counted).1 (List.mem_filter.mp counted).2
  exact same ▸ List.mem_map_of_mem (List.mem_filter.mpr ⟨known, chosen⟩)

variable (selects : R → Bool) (f : R → R) (same : ∀ r, key (f r) = key r) (p : R → Bool)

/-- A count grows by one at most when one row is rewritten. -/
theorem countP_modify_le_succ {k : K} (own : ∀ r, selects r = true → key r = k) :
    (t.modify selects f same).rows.countP p ≤ t.rows.countP p + 1 := by
  have split (rows : List R) :
      (rows.map fun r => if selects r then f r else r).countP p ≤ rows.countP p + rows.countP selects := by
    induction rows with
    | nil => exact Nat.le_refl _
    | cons r rest ih =>
      simp only [List.map_cons, List.countP_cons]
      by_cases chosen : selects r
      · rw [if_pos chosen, if_pos chosen]
        split <;> omega
      · rw [if_neg chosen, if_neg chosen]
        omega
  have once : t.rows.countP selects ≤ 1 := by
    rw [List.countP_eq_length_filter, ← List.length_map (f := key)]
    have keys : ((t.rows.filter selects).map key).Nodup := List.Pairwise.sublist (List.filter_sublist.map _) t.distinct
    change _ ≤ [k].length
    apply List.Subperm.length_le
    apply List.subperm_of_subset keys
    intro k' member
    obtain ⟨r, chosen, rfl⟩ := List.mem_map.mp member
    exact List.mem_singleton.mpr (own r (List.mem_filter.mp chosen).2)
  exact (split t.rows).trans (Nat.add_le_add_left once _)

/-- It does not grow when no rewritten row is counted. -/
theorem countP_modify_le (never : ∀ r, selects r = true → p (f r) = false) :
    (t.modify selects f same).rows.countP p ≤ t.rows.countP p := by
  have split (rows : List R) : (rows.map fun r => if selects r then f r else r).countP p ≤ rows.countP p := by
    induction rows with
    | nil => exact Nat.le_refl _
    | cons r rest ih =>
      simp only [List.map_cons, List.countP_cons]
      by_cases chosen : selects r
      · rw [if_pos chosen, if_neg (by simp [never r chosen])]
        omega
      · rw [if_neg chosen]
        omega
  exact split t.rows

end Counts

end Table

/-! ### `ORDER BY … DESC LIMIT 1` -/

section Latest

theorem eq_nil_of_head?_insertionSort {R : Type} {r : R → R → Prop} [DecidableRel r] {rows : List R}
    (none : (rows.insertionSort r).head? = none) : rows = [] := by
  apply List.eq_nil_of_length_eq_zero
  rw [← List.length_insertionSort r, List.head?_eq_none_iff.mp none, List.length_nil]

variable {R K : Type} [LinearOrder K] (f : R → K) (r : R → R → Prop) [DecidableRel r]
  (descending : ∀ a b, r a b ↔ f b ≤ f a)

include descending

theorem head?_insertionSort_cons (y : R) (ys : List R) : ((y :: ys).insertionSort r).head? =
    match (ys.insertionSort r).head? with
    | none => some y
    | some b => if f b ≤ f y then some y else some b := by
  rw [List.insertionSort_cons]
  cases ys.insertionSort r with
  | nil => rfl
  | cons b bs =>
    simp only [List.orderedInsert, List.head?_cons, descending]
    split <;> rfl

/-- The row that is found stands before the rows that tie with it. -/
theorem head?_insertionSort_split {rows : List R} {x : R} (found : (rows.insertionSort r).head? = some x) :
    ∃ earlier later, rows = earlier ++ x :: later ∧ (∀ z ∈ earlier, f z < f x) ∧ ∀ z ∈ later, f z ≤ f x := by
  induction rows generalizing x with
  | nil => simp at found
  | cons y ys ih =>
    rw [head?_insertionSort_cons f r descending] at found
    cases first : (ys.insertionSort r).head? with
    | none =>
      rw [first] at found
      cases found
      exact ⟨[], ys, rfl, by simp, by simp [eq_nil_of_head?_insertionSort first]⟩
    | some b =>
      rw [first] at found
      dsimp only at found
      obtain ⟨earlier, later, rfl, below, bound⟩ := ih first
      split at found
      · rename_i beaten
        cases found
        refine ⟨[], _, rfl, by simp, ?_⟩
        intro z member
        rcases List.mem_append.mp member with before | after
        · exact (below z before).le.trans beaten
        · rcases List.mem_cons.mp after with rfl | after
          · exact beaten
          · exact (bound z after).trans beaten
      · rename_i beats
        cases found
        refine ⟨y :: earlier, later, rfl, ?_, bound⟩
        exact List.forall_mem_cons.mpr ⟨not_le.mp beats, below⟩

theorem head?_insertionSort_of_split (earlier later : List R) {x : R} (below : ∀ z ∈ earlier, f z < f x)
    (bound : ∀ z ∈ later, f z ≤ f x) : ((earlier ++ x :: later).insertionSort r).head? = some x := by
  induction earlier with
  | nil =>
    rw [List.nil_append, head?_insertionSort_cons f r descending]
    cases first : (later.insertionSort r).head? with
    | none => rfl
    | some b =>
      have member : b ∈ later := (List.mem_insertionSort r).mp (List.mem_of_mem_head? first)
      simp only [bound b member, if_true]
  | cons y ys ih =>
    obtain ⟨beaten, below⟩ := List.forall_mem_cons.mp below
    rw [List.cons_append, head?_insertionSort_cons f r descending, ih below]
    simp only [not_le.mpr beaten, if_false]

/-- Rows that are not found may go. -/
theorem head?_insertionSort_filter (rows : List R) (keep : R → Bool)
    (kept : ∀ x ∈ rows, (∀ y ∈ rows, f y ≤ f x) → keep x = true) :
    ((rows.filter keep).insertionSort r).head? = (rows.insertionSort r).head? := by
  cases found : (rows.insertionSort r).head? with
  | none => rw [eq_nil_of_head?_insertionSort found]; rfl
  | some x =>
    obtain ⟨earlier, later, rfl, below, bound⟩ := head?_insertionSort_split f r descending found
    have largest : ∀ y ∈ earlier ++ x :: later, f y ≤ f x := by
      intro y member
      rcases List.mem_append.mp member with before | after
      · exact (below y before).le
      · rcases List.mem_cons.mp after with rfl | after
        · exact le_refl _
        · exact bound y after
    rw [List.filter_append, List.filter_cons_of_pos (kept x (by simp) largest)]
    apply head?_insertionSort_of_split f r descending
    · exact fun z member => below z (List.mem_of_mem_filter member)
    · exact fun z member => bound z (List.mem_of_mem_filter member)

/-- A new last row is found only if it beats every other row. -/
theorem head?_insertionSort_append (rows : List R) (x : R) :
    ((rows ++ [x]).insertionSort r).head? =
      if ∀ y ∈ rows, f y < f x then some x else (rows.insertionSort r).head? := by
  split
  · rename_i beaten
    exact head?_insertionSort_of_split f r descending rows [] beaten (by simp)
  · rename_i held
    cases found : (rows.insertionSort r).head? with
    | none => exact absurd (by simp [eq_nil_of_head?_insertionSort found]) held
    | some b =>
      obtain ⟨earlier, later, rfl, below, bound⟩ := head?_insertionSort_split f r descending found
      rw [List.append_assoc, List.cons_append]
      apply head?_insertionSort_of_split f r descending earlier _ below
      intro z member
      rcases List.mem_append.mp member with old | new
      · exact bound z old
      · obtain rfl := List.mem_singleton.mp new
        by_contra above
        apply held
        intro y listed
        rcases List.mem_append.mp listed with before | after
        · exact (below y before).trans (not_le.mp above)
        · rcases List.mem_cons.mp after with rfl | after
          · exact not_le.mp above
          · exact (bound y after).trans_lt (not_le.mp above)

end Latest

end Cronova
