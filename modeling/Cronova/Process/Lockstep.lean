import Cronova.Process.Program

/-! Two programs side by side.

Each runs on its own, from states that a relation ties together. In lockstep they return
related results or the same error, and leave related states behind.
-/

set_option autoImplicit false

namespace Cronova.Process

variable {I : Signature} {E A A' B B' C C' S : Type}

/-- Related results, or one error. -/
inductive Agree (value : A → A' → Prop) : Except E A → Except E A' → Prop where
  | ok {a : A} {a' : A'} : value a a' → Agree value (.ok a) (.ok a')
  | error (e : E) : Agree value (.error e) (.error e)

namespace Prog

/-- The two programs answer alike whenever they start alike. -/
def Lockstep (h : Handler I S) (tied : S → S → Prop) (value : A → A' → Prop) (p : Prog I E A) (q : Prog I E A') : Prop :=
  ∀ s t, tied s t → Agree value (p.run h s).1 (q.run h t).1 ∧ tied (p.run h s).2 (q.run h t).2

namespace Lockstep

variable {h : Handler I S} {tied : S → S → Prop} {value : A → A' → Prop} {result : B → B' → Prop}
  {p : Prog I E A} {q : Prog I E A'}

theorem done {a : A} {a' : A'} (same : value a a') :
    Lockstep h tied value (Prog.done a : Prog I E A) (Prog.done a' : Prog I E A') :=
  fun _ _ start => ⟨.ok same, start⟩

theorem call {o o' : I.Op} {k : I.Reply o → Prog I E A} {k' : I.Reply o' → Prog I E A'}
    (reply : I.Reply o → I.Reply o' → Prop)
    (step : ∀ s t, tied s t → reply (h o s).1 (h o' t).1 ∧ tied (h o s).2 (h o' t).2)
    (next : ∀ r r', reply r r' → Lockstep h tied value (k r) (k' r')) :
    Lockstep h tied value (.call o k) (.call o' k') := by
  intro s t start
  obtain ⟨answers, after⟩ := step s t start
  exact next _ _ answers _ _ after

theorem bind {k : A → Prog I E B} {k' : A' → Prog I E B'} (first : Lockstep h tied value p q)
    (next : ∀ a a', value a a' → Lockstep h tied result (k a) (k' a')) :
    Lockstep h tied result (p.bind k) (q.bind k') := by
  intro s t start
  obtain ⟨agree, after⟩ := first s t start
  rw [run_bind, run_bind]
  generalize p.run h s = left at agree after
  generalize q.run h t = right at agree after
  obtain ⟨x, u⟩ := left
  obtain ⟨y, v⟩ := right
  cases agree with
  | ok same => exact next _ _ same _ _ after
  | error e => exact ⟨.error e, after⟩

theorem attempt (both : Lockstep h tied value p q) : Lockstep h tied (Agree value) p.attempt q.attempt := by
  intro s t start
  rw [run_attempt, run_attempt]
  exact ⟨.ok (both s t start).1, (both s t start).2⟩

/-- A loop over two lists that are related item by item. -/
theorem fold {step : B → C → Prog I E B} {step' : B' → C' → Prog I E B'} {item : C → C' → Prop} {cs : List C}
    {cs' : List C'} (items : List.Forall₂ item cs cs')
    (round : ∀ b b' c c', result b b' → item c c' → Lockstep h tied result (step b c) (step' b' c')) :
    ∀ b b', result b b' → Lockstep h tied result (Prog.fold step cs b) (Prog.fold step' cs' b') := by
  induction items with
  | nil => exact fun b b' same => done same
  | cons head _ ih => exact fun b b' same => (round b b' _ _ same head).bind ih

theorem forEach {body : C → Prog I E Unit} {body' : C' → Prog I E Unit} {item : C → C' → Prop} {cs : List C}
    {cs' : List C'} (items : List.Forall₂ item cs cs')
    (round : ∀ c c', item c c' → Lockstep h tied (fun _ _ => True) (body c) (body' c')) :
    Lockstep h tied (fun _ _ => True) (Prog.forEach cs body) (Prog.forEach cs' body') :=
  fold items (fun _ _ c c' _ same => round c c' same) () () trivial

end Lockstep

end Prog

end Cronova.Process
