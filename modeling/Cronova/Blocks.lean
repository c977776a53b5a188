import Mathlib.Data.List.Basic
import Mathlib.Data.List.Nodup

/-! Files that several writers append to.

Every item of such a file carries the writer that it comes from. A file is blocked when the items of
each writer stand together: it is then the concatenation of what the writers wrote.
-/

set_option autoImplicit false

namespace Cronova.Blocks

variable {T B : Type} [DecidableEq T] {tag other : T} {file : List (T × B)}

/-- What a writer wrote. -/
def own (tag : T) (file : List (T × B)) : List B := (file.filter (·.1 = tag)).map (·.2)

/-- A piece of one writer. -/
def piece (tag : T) (items : List B) : List (T × B) := items.map (tag, ·)

@[simp] theorem own_append (tag : T) (file more : List (T × B)) : own tag (file ++ more) = own tag file ++ own tag more := by
  simp [own]

@[simp] theorem own_piece_self (tag : T) (items : List B) : own tag (piece tag items) = items := by
  simp [own, piece, List.filter_map, Function.comp_def]

theorem own_piece_other (apart : other ≠ tag) (items : List B) : own other (piece tag items) = [] := by
  simp [own, piece, List.filter_map, Function.comp_def, apart.symm]

theorem own_length_of_alone (alone : ∀ e ∈ file, e.1 = tag) : (own tag file).length = file.length := by
  rw [own, List.length_map, List.filter_eq_self.mpr]
  intro e member
  simpa using alone e member

/-- The items of each writer of the order stand together. -/
structure InOrder (order : List T) (file : List (T × B)) : Prop where
  nodup : order.Nodup
  wrote : ∀ t ∈ order, own t file ≠ []
  whole : file = order.flatMap fun t => piece t (own t file)

def Blocked (file : List (T × B)) : Prop := ∃ order, InOrder order file

theorem Blocked.nil : Blocked ([] : List (T × B)) := ⟨[], List.nodup_nil, by simp, rfl⟩

namespace InOrder

variable {order : List T}

/-- A blocked file is the concatenation of what was written. -/
theorem items (blocked : InOrder order file) : file.map (·.2) = order.flatMap fun t => own t file := by
  have split := congrArg (List.map (·.2)) blocked.whole
  rw [List.map_flatMap] at split
  simpa [piece, Function.comp_def] using split

/-- The writer of the last item is the last one. -/
theorem last_order {before : List T} (blocked : InOrder (before ++ [other]) file) (last : ∀ e ∈ file.getLast?, e.1 = tag) :
    other = tag := by
  have wrote := blocked.wrote other (by simp)
  obtain ⟨b, found⟩ := Option.ne_none_iff_exists'.mp (mt List.getLast?_eq_none_iff.mp wrote)
  apply last (other, b)
  rw [blocked.whole, List.flatMap_append, List.flatMap_singleton, Option.mem_def, List.getLast?_append, piece, List.getLast?_map, found]
  rfl

theorem flatMap_append (order : List T) (absent : tag ∉ order) (file : List (T × B)) (items : List B) :
    (order.flatMap fun t => piece t (own t (file ++ piece tag items))) = order.flatMap fun t => piece t (own t file) := by
  induction order with
  | nil => rfl
  | cons t rest ih =>
    rw [List.mem_cons, not_or] at absent
    simp only [List.flatMap_cons, own_append, own_piece_other (Ne.symm absent.1), List.append_nil]
    rw [← ih absent.2]
    simp

end InOrder

/-- A writer may go on where it has the end of the file, or begin there. -/
theorem Blocked.append (blocked : Blocked file) (items : List B)
    (goesOn : own tag file = [] ∨ ∀ e ∈ file.getLast?, e.1 = tag) : Blocked (file ++ piece tag items) := by
  obtain ⟨order, blocked⟩ := blocked
  by_cases none : items = []
  · subst none
    exact ⟨order, by simpa [piece] using blocked⟩
  by_cases begins : own tag file = []
  · have absent : tag ∉ order := fun listed => blocked.wrote tag listed begins
    refine ⟨order ++ [tag], ?_, ?_, ?_⟩
    · exact List.nodup_append.mpr ⟨blocked.nodup, by simp, by rintro t listed _ last rfl; exact absent (List.mem_singleton.mp last ▸ listed)⟩
    · intro t listed
      rcases List.mem_append.mp listed with old | new
      · simp [blocked.wrote t old]
      · rw [List.mem_singleton.mp new]
        simp [none]
    · rw [List.flatMap_append, InOrder.flatMap_append order absent, ← blocked.whole]
      simp [begins]
  · have last := goesOn.resolve_left begins
    -- the writer is the last of the order
    obtain ⟨before, rfl⟩ : ∃ before, order = before ++ [tag] := by
      rcases List.eq_nil_or_concat order with rfl | ⟨before, t, rfl⟩
      · have empty := blocked.whole
        simp only [List.flatMap_nil] at empty
        simp [empty, own] at begins
      · rw [List.concat_eq_append] at blocked ⊢
        exact ⟨before, by rw [blocked.last_order last]⟩
    have absent : tag ∉ before := by
      intro listed
      exact (List.nodup_append.mp blocked.nodup).2.2 tag listed tag (by simp) rfl
    refine ⟨before ++ [tag], blocked.nodup, ?_, ?_⟩
    · intro t listed
      simp [blocked.wrote t listed]
    · have split := blocked.whole
      rw [List.flatMap_append, List.flatMap_singleton] at split
      rw [List.flatMap_append, InOrder.flatMap_append before absent, List.flatMap_singleton, own_append, own_piece_self]
      nth_rewrite 1 [split]
      simp [piece]

end Cronova.Blocks
