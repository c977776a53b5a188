import Cronova.Process.Contract

/-! Promises about the statements of a program, whatever is replied to them.

`Yields may good p`: the program issues permitted statements only, and if it returns then
what it returns is good. The rules follow the shape of programs, and `Yields.within` reads a
promise inside a contract.
-/

set_option autoImplicit false

namespace Cronova.Process.Prog

variable {I : Signature} {E A B S : Type}

def Yields (may : I.Op → Prop) (good : A → Prop) (p : Prog I E A) : Prop :=
  p.Safe (blind may) (fun r _ => ∀ a, r = .ok a → good a) ()

/-- A promise about the statements alone. -/
abbrev Issues (may : I.Op → Prop) (p : Prog I E A) : Prop := Yields may (fun _ => True) p

section Rules

variable {may : I.Op → Prop} {good : A → Prop} {mid : B → Prop} {p : Prog I E A}

theorem Yields.pure {a : A} (holds : good a) : Yields may good (pure a : Prog I E A) := by
  intro b same
  cases same
  exact holds

theorem Yields.fail (e : E) : Yields may good (.fail e : Prog I E A) := nofun

theorem Yields.mono {other : A → Prop} (yields : Yields may good p) (implies : ∀ a, good a → other a) : Yields may other p :=
  Safe.mono yields fun _ _ returned a same => implies a (returned a same)

theorem Yields.permits {other : I.Op → Prop} (yields : Yields may good p) (implies : ∀ o, may o → other o) :
    Yields other good p := by
  induction p with
  | done a => exact yields
  | fail e => exact yields
  | call o k ih =>
    obtain ⟨permitted, next⟩ := yields () trivial trivial
    exact fun _ _ _ => ⟨implies o permitted, fun r _ _ _ => ih r (next r () trivial trivial)⟩

theorem Yields.bind {q : Prog I E B} {k : B → Prog I E A} (first : Yields may mid q) (next : ∀ b, mid b → Yields may good (k b)) :
    Yields may good (q >>= k) :=
  Safe.bind _ first (fun b _ returned => next b (returned b rfl)) nofun

theorem Yields.after {q : Prog I E B} {k : B → Prog I E A} (first : Issues may q) (next : ∀ b, Yields may good (k b)) :
    Yields may good (q >>= k) :=
  Yields.bind first fun b _ => next b

theorem Yields.attempt (yields : Yields may good p) : Yields may (fun r : Except E A => ∀ a, r = .ok a → good a) p.attempt := by
  apply Safe.attempt
  refine Safe.mono yields fun r _ returned result same => ?_
  cases same
  exact returned

theorem Yields.perform {o : I.Op} (permitted : may o) : Yields (E := E) may (fun _ => True) (perform o) :=
  fun _ _ _ => ⟨permitted, fun _ _ _ _ _ _ => trivial⟩

theorem Yields.fold {body : A → B → Prog I E A} {items : List B} {a : A} (start : good a)
    (round : ∀ a b, good a → Yields may good (body a b)) : Yields may good (fold body items a) := by
  induction items generalizing a with
  | nil => exact Yields.pure start
  | cons b rest ih => exact Yields.bind (round a b start) fun a kept => ih kept

theorem Issues.pure (a : A) : Issues may (pure a : Prog I E A) := Yields.pure trivial

theorem Issues.bind {q : Prog I E B} {k : B → Prog I E A} (first : Issues may q) (next : ∀ b, Issues may (k b)) :
    Issues may (q >>= k) :=
  Yields.after first next

theorem Issues.attempt (issues : Issues may p) : Issues may p.attempt := (Yields.attempt issues).mono fun _ _ => trivial

theorem Issues.fold {body : A → B → Prog I E A} {items : List B} {a : A} (round : ∀ a b, Issues may (body a b)) :
    Issues may (Prog.fold body items a) :=
  Yields.fold trivial fun a b _ => round a b

theorem Issues.forEach {body : B → Prog I E Unit} {items : List B} (round : ∀ b, Issues may (body b)) :
    Issues may (Prog.forEach items body) :=
  Issues.fold fun _ b => round b

end Rules

/-- A promise about the statements holds of what is left of a program. -/
theorem After.issues {may : I.Op → Prop} {p rest : Prog I E A} {log : List (Issued I)} (after : After p log rest)
    (issues : Issues may p) : Issues may rest := by
  induction after with
  | start => exact issues
  | issue r _ ih => exact (ih () trivial trivial).2 r () trivial trivial

/-- An assertion that permitted statements and the others leave true. -/
structure Frame (c : Contract I S) (may : I.Op → Prop) (keep : S → Prop) : Prop where
  rely : ∀ s t, c.rely s t → keep s → keep t
  permit : ∀ o s, may o → c.inv s → keep s → c.may o s
  step : ∀ o s r t, may o → c.inv s → c.step o s r t → keep s → keep t

/-- A promise, read inside a contract: the program is verified and the assertion stays true. -/
theorem Yields.within {c : Contract I S} {may : I.Op → Prop} {keep : S → Prop} {good : A → Prop} {p : Prog I E A} {s : S}
    (yields : Yields may good p) (frame : Frame c may keep) (holds : keep s) :
    p.Safe c (fun r t => (∀ a, r = .ok a → good a) ∧ keep t) s := by
  have framed := Safe.framed (c := c) yields (fun s t => keep s → keep t) (fun _ kept => kept)
    (fun _ _ _ first second kept => second (first kept)) frame.rely
    (fun o s r t permitted inv stepped => frame.step o s r t permitted inv stepped) s
    (fun o t kept inv permitted => frame.permit o t permitted inv (kept holds))
  exact framed.mono fun _ _ ended => ⟨ended.1, ended.2 holds⟩

end Cronova.Process.Prog
