import Mathlib.Data.List.Basic

/-! Programs that talk to their surroundings one statement at a time.

A `Prog` is a finite interaction tree: it returns, stops with an error, or issues
one statement and continues with the reply. The statements are the only points at
which anything outside the program can be seen or changed, so they are also the
only points at which another thread can act.
-/

set_option autoImplicit false

namespace Cronova.Process

/-- The statements a program may issue and the type of each statement's reply. -/
structure Signature where
  Op : Type
  Reply : Op → Type

inductive Prog (I : Signature) (E A : Type) where
  | done : A → Prog I E A
  | fail : E → Prog I E A
  | call : (o : I.Op) → (I.Reply o → Prog I E A) → Prog I E A

/-- One deterministic answer to every statement. -/
abbrev Handler (I : Signature) (S : Type) := (o : I.Op) → S → I.Reply o × S

/-- A statement with its reply. -/
abbrev Issued (I : Signature) := Σ o : I.Op, I.Reply o

namespace Prog

variable {I : Signature} {E A B S : Type}

def bind (p : Prog I E A) (k : A → Prog I E B) : Prog I E B :=
  match p with
  | .done a => k a
  | .fail e => .fail e
  | .call o next => .call o (fun r => (next r).bind k)

instance : Monad (Prog I E) where
  pure := .done
  bind := bind

@[simp] theorem pure_eq (a : A) : (pure a : Prog I E A) = .done a := rfl
@[simp] theorem bind_eq (p : Prog I E A) (k : A → Prog I E B) : p >>= k = p.bind k := rfl
@[simp] theorem done_bind (a : A) (k : A → Prog I E B) : (Prog.done a : Prog I E A).bind k = k a := rfl
@[simp] theorem fail_bind (e : E) (k : A → Prog I E B) : (Prog.fail e : Prog I E A).bind k = .fail e := rfl
@[simp] theorem call_bind (o : I.Op) (next : I.Reply o → Prog I E A) (k : A → Prog I E B) :
    (Prog.call o next).bind k = .call o (fun r => (next r).bind k) := rfl

theorem bind_done (p : Prog I E A) : p.bind .done = p := by
  induction p with
  | done a => rfl
  | fail e => rfl
  | call o next ih => exact congrArg (Prog.call o) (funext ih)

theorem bind_assoc {C : Type} (p : Prog I E A) (k : A → Prog I E B) (l : B → Prog I E C) :
    (p.bind k).bind l = p.bind fun a => (k a).bind l := by
  induction p with
  | done a => rfl
  | fail e => rfl
  | call o next ih => exact congrArg (Prog.call o) (funext ih)

/-- Issue one statement and return its reply. -/
def perform (o : I.Op) : Prog I E (I.Reply o) := .call o .done

@[simp] theorem perform_bind (o : I.Op) (k : I.Reply o → Prog I E B) :
    (perform o : Prog I E (I.Reply o)).bind k = .call o k := rfl

def ofExcept : Except E A → Prog I E A
  | .ok a => .done a
  | .error e => .fail e

/-- Run to the end and hand an error back as a value. -/
def attempt : Prog I E A → Prog I E (Except E A)
  | .done a => .done (.ok a)
  | .fail e => .done (.error e)
  | .call o k => .call o (fun r => (k r).attempt)

/-- A loop over a list that carries an accumulator and stops at the first error. -/
def fold (step : A → B → Prog I E A) : List B → A → Prog I E A
  | [], a => .done a
  | b :: bs, a => (step a b).bind (fold step bs)

def forEach (bs : List B) (body : B → Prog I E Unit) : Prog I E Unit :=
  fold (fun _ b => body b) bs ()

/-- The program on its own: no other thread acts between its statements. -/
def run (h : Handler I S) : Prog I E A → S → Except E A × S
  | .done a, s => (.ok a, s)
  | .fail e, s => (.error e, s)
  | .call o k, s => (k (h o s).1).run h (h o s).2

@[simp] theorem run_done (h : Handler I S) (a : A) (s : S) :
    (Prog.done a : Prog I E A).run h s = (.ok a, s) := rfl
@[simp] theorem run_fail (h : Handler I S) (e : E) (s : S) :
    (Prog.fail e : Prog I E A).run h s = (.error e, s) := rfl
@[simp] theorem run_call (h : Handler I S) (o : I.Op) (k : I.Reply o → Prog I E A) (s : S) :
    (Prog.call o k).run h s = (k (h o s).1).run h (h o s).2 := rfl

theorem run_bind (h : Handler I S) (p : Prog I E A) (k : A → Prog I E B) (s : S) :
    (p.bind k).run h s = match p.run h s with
      | (.ok a, t) => (k a).run h t
      | (.error e, t) => (.error e, t) := by
  induction p generalizing s with
  | done a => rfl
  | fail e => rfl
  | call o next ih => exact ih _ _

theorem run_attempt (h : Handler I S) (p : Prog I E A) (s : S) :
    p.attempt.run h s = (.ok (p.run h s).1, (p.run h s).2) := by
  induction p generalizing s with
  | done a => rfl
  | fail e => rfl
  | call o next ih => exact ih _ _

/-- A handler that also writes down what it answers. -/
def recorded (h : Handler I S) : Handler I (S × List (Issued I)) := fun o (s, log) =>
  ((h o s).1, (h o s).2, log ++ [⟨o, (h o s).1⟩])

/-- A loop whose rounds are known as functions of the accumulator and the state. -/
theorem run_fold (h : Handler I S) {step : A → B → Prog I E A} (keep : A → Prop) (f : A × S → B → A × S)
    (round : ∀ b a s, keep a → (step a b).run h s = (.ok (f (a, s) b).1, (f (a, s) b).2) ∧ keep (f (a, s) b).1)
    (items : List B) (a : A) (s : S) (start : keep a) :
    (fold step items a).run h s = (.ok (items.foldl f (a, s)).1, (items.foldl f (a, s)).2) := by
  induction items generalizing a s with
  | nil => rfl
  | cons b rest ih =>
    obtain ⟨ran, kept⟩ := round b a s start
    rw [fold, run_bind, ran]
    exact ih _ _ kept

/-- A loop none of whose rounds fails; what every round keeps, the loop keeps. -/
theorem run_fold_ok (h : Handler I S) {step : A → B → Prog I E A} (keep : S → S → Prop) (refl : ∀ s, keep s s)
    (trans : ∀ s t u, keep s t → keep t u → keep s u)
    (round : ∀ b a s, ∃ a' t, (step a b).run h s = (.ok a', t) ∧ keep s t) (items : List B) (a : A) (s : S) :
    ∃ a' t, (fold step items a).run h s = (.ok a', t) ∧ keep s t := by
  induction items generalizing a s with
  | nil => exact ⟨a, s, rfl, refl s⟩
  | cons b rest ih =>
    obtain ⟨a', t, ran, kept⟩ := round b a s
    obtain ⟨a'', u, onward, later⟩ := ih a' t
    refine ⟨a'', u, ?_, trans s t u kept later⟩
    rw [fold, run_bind, ran]
    exact onward

/-- A loop over a body that never fails. -/
theorem run_forEach (h : Handler I S) {body : B → Prog I E Unit} (ok : ∀ b s, ((body b).run h s).1 = .ok ())
    (items : List B) (s : S) :
    (forEach items body).run h s = (.ok (), items.foldl (fun s b => ((body b).run h s).2) s) := by
  induction items generalizing s with
  | nil => rfl
  | cons b rest ih =>
    have round : (body b).run h s = (.ok (), ((body b).run h s).2) := by rw [← ok b s]
    rw [forEach, fold, run_bind, round]
    exact ih _

end Prog

end Cronova.Process
