import Mathlib.Data.List.Basic

/-! Checks that follow one another and stop at the first that fails. -/

set_option autoImplicit false

namespace Cronova.Checks

variable {E A B : Type}

/-- The error unless the condition holds. -/
def require (condition : Prop) [Decidable condition] (error : E) : Except E Unit :=
  if condition then .ok () else .error error

/-- The error unless there is a value. -/
def demand (value : Option A) (error : E) : Except E A := value.elim (.error error) .ok

/-- The error of the first item that the condition does not hold of. -/
def requireEach (items : List A) (condition : A → Prop) [DecidablePred condition] (error : A → E) : Except E Unit :=
  match items with
  | [] => .ok ()
  | item :: items => do
    require (condition item) (error item)
    requireEach items condition error

@[simp] theorem require_eq_ok {condition : Prop} [Decidable condition] {error : E} {u : Unit} :
    require condition error = .ok u ↔ condition := by
  unfold require
  split <;> simp [*]

@[simp] theorem demand_eq_ok {value : Option A} {error : E} {a : A} : demand value error = .ok a ↔ value = some a := by
  cases value <;> simp [demand]

/-- What follows a check is reached when the check is passed. -/
@[simp] theorem bind_eq_ok {x : Except E A} {f : A → Except E B} {b : B} : (x >>= f) = .ok b ↔ ∃ a, x = .ok a ∧ f a = .ok b := by
  cases x with
  | ok a => exact ⟨fun reached => ⟨a, rfl, reached⟩, fun ⟨_, same, reached⟩ => by cases same; exact reached⟩
  | error e => exact ⟨nofun, fun ⟨_, refused, _⟩ => by cases refused⟩

@[simp] theorem pure_eq_ok {a b : A} : (pure a : Except E A) = .ok b ↔ a = b := Except.ok.injEq a b ▸ Iff.rfl

@[simp] theorem requireEach_eq_ok {items : List A} {condition : A → Prop} [DecidablePred condition] {error : A → E} {u : Unit} :
    requireEach items condition error = .ok u ↔ ∀ item ∈ items, condition item := by
  induction items with
  | nil => simp [requireEach]
  | cons item items ih => simp [requireEach, ih]

end Cronova.Checks
