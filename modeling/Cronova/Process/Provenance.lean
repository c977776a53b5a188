import Cronova.Process.Interleaving
import Mathlib.Data.List.Induction

/-! What the entries of a history rest on.

Every entry is accounted for by the entries before it: those that its own thread has made, by what the
program of the thread does, and those of other threads, by what the state remembers of them. What
an entry brings about stands until a later entry takes it back.
-/

set_option autoImplicit false

namespace Cronova.Process

section Histories

variable {H X : Type} {R R' : List H → H → Prop} {brings takes : H → X → Prop} {history : List H} {e : H} {x : X}

/-- The last entry of a history, or one before it. -/
theorem snoc_split {before after : List H} {found : H} (split : history ++ [e] = before ++ found :: after) :
    (history = before ∧ e = found ∧ after = []) ∨ ∃ rest, history = before ++ found :: rest ∧ after = rest ++ [e] := by
  rcases List.eq_nil_or_concat after with rfl | ⟨rest, last, rfl⟩
  · obtain ⟨same, tail⟩ := List.append_inj' split rfl
    exact .inl ⟨same, (List.cons.inj tail).1, rfl⟩
  · right
    rw [List.concat_eq_append, ← List.cons_append, ← List.append_assoc] at split
    obtain ⟨same, tail⟩ := List.append_inj' split rfl
    rw [List.concat_eq_append, (List.cons.inj tail).1]
    exact ⟨rest, same, rfl⟩

/-- Every entry is accounted for by what came before it. -/
def Accounts (R : List H → H → Prop) (history : List H) : Prop :=
  ∀ before e after, history = before ++ e :: after → R before e

theorem Accounts.nil : Accounts R [] := by
  intro before e after split
  simp at split

theorem Accounts.snoc (accounts : Accounts R history) (last : R history e) : Accounts R (history ++ [e]) := by
  intro before found after split
  rcases snoc_split split with ⟨rfl, rfl, rfl⟩ | ⟨rest, earlier, _⟩
  · exact last
  · exact accounts before found rest earlier

theorem Accounts.earlier {before after : List H} (accounts : Accounts R history) (split : history = before ++ after) :
    Accounts R before := by
  intro front found rest inner
  apply accounts front found (rest ++ after)
  rw [split, inner, List.append_assoc, List.cons_append]

theorem Accounts.mem (accounts : Accounts R history) (member : e ∈ history) :
    ∃ before after, history = before ++ e :: after ∧ R before e := by
  obtain ⟨before, after, split⟩ := List.append_of_mem member
  exact ⟨before, after, split, accounts before e after split⟩

theorem Accounts.mono (accounts : Accounts R history) (implies : ∀ before e, R before e → R' before e) : Accounts R' history :=
  fun before e after split => implies before e (accounts before e after split)

/-- What the entries rest on is followed back to where it starts. -/
theorem Accounts.follow (follows : ∀ before e, Accounts R' before → R before e → R' before e) (accounts : Accounts R history) :
    Accounts R' history := by
  induction history using List.reverseRecOn with
  | nil => exact .nil
  | append_singleton earlier last ih =>
    have traced := ih (accounts.earlier rfl)
    exact traced.snoc (follows earlier last traced (accounts earlier last [] rfl))

/-- An entry has brought it about, and none since has taken it back. -/
def Standing (brings takes : H → X → Prop) (history : List H) (x : X) : Prop :=
  ∃ before e after, history = before ++ e :: after ∧ brings e x ∧ ∀ later ∈ after, ¬ takes later x

theorem Standing.brought (brought : brings e x) : Standing brings takes (history ++ [e]) x :=
  ⟨history, e, [], rfl, brought, fun _ listed => nomatch listed⟩

theorem Standing.snoc (standing : Standing brings takes history x) (kept : ¬ takes e x) :
    Standing brings takes (history ++ [e]) x := by
  obtain ⟨before, found, after, rfl, brought, since⟩ := standing
  refine ⟨before, found, after ++ [e], by simp, brought, fun later listed => ?_⟩
  rcases List.mem_append.mp listed with earlier | last
  · exact since later earlier
  · exact List.mem_singleton.mp last ▸ kept

/-- What is taken back does not stand until it is brought about again. -/
theorem Standing.since {before after : List H} (standing : Standing brings takes (before ++ e :: after) x) (taken : takes e x) :
    ∃ later ∈ e :: after, brings later x := by
  obtain ⟨front, found, back, split, brought, since⟩ := standing
  rcases List.append_eq_append_iff.mp split with ⟨more, rfl, tail⟩ | ⟨more, rfl, tail⟩
  · exact ⟨found, by rw [tail]; simp, brought⟩
  · rcases more with _ | ⟨first, more⟩
    · exact ⟨found, by rw [← (List.cons.inj tail).1]; simp, brought⟩
    · obtain ⟨_, rest⟩ := List.cons.inj tail
      exact absurd taken (since e (by rw [rest]; simp))

end Histories

variable {I : Signature} {E A S L T : Type}

namespace Prog

variable {may : I.Op → List (Issued I) → Prop} {p : Prog I E A} {post : Except E A → List (Issued I) → Prop} {log : List (Issued I)}

/-- The contract of a program that is judged by everything it has issued. -/
abbrev telling (may : I.Op → List (Issued I) → Prop) : Contract I (List (Issued I)) :=
  tracking (fun log o r => log ++ [⟨o, r⟩]) (fun _ _ => True) may

theorem view_log (log : List (Issued I)) : view (fun log o r => log ++ [⟨o, r⟩]) [] log = log := by
  suffices ∀ start : List (Issued I), view (fun log o r => log ++ [⟨o, r⟩]) start log = start ++ log from this []
  induction log with
  | nil => exact fun start => (List.append_nil start).symm
  | cons e rest ih =>
    intro start
    exact (ih (start ++ [e])).trans (by simp)

theorem Safe.told {o : I.Op} {k : I.Reply o → Prog I E A} (permitted : may o log)
    (onward : ∀ r, (k r).Safe (telling may) post (log ++ [⟨o, r⟩])) : (Prog.call o k).Safe (telling may) post log :=
  Safe.tracked permitted fun r _ => onward r

theorem After.permits {o : I.Op} {k : I.Reply o → Prog I E A} (after : After p log (.call o k))
    (safe : p.Safe (telling may) post []) : may o log := by
  have here := after.safe (fun _ _ => trivial) safe
  rw [view_log] at here
  exact (here _ rfl trivial).1

end Prog

namespace System

variable {M : System I E S L T}

/-- What a thread has issued is in the history, under its request. -/
def Entered (p : Pool I E S T) : Prop :=
  ∀ (tid : Nat) (thread : Thread I E T), p.threads[tid]? = some thread → ∀ e ∈ thread.log, (thread.origin, e) ∈ p.history

theorem Entered.step {p : Pool I E S T} (entered : Entered p) (move : Move L T) : Entered (M.step p move) := by
  generalize after : M.step p move = q
  have moved := after ▸ M.moved p move
  cases moved with
  | idle => exact entered
  | starts admitted =>
    intro tid thread lookup e listed
    rcases getElem?_starts lookup with old | ⟨_, rfl⟩
    · exact entered tid thread old e listed
    · cases listed
  | restarts label =>
    intro tid thread lookup e listed
    obtain rfl := List.mem_singleton.mp (List.mem_of_getElem? lookup)
    cases listed
  | performs thread performed =>
    intro other found lookup e listed
    rcases getElem?_performs lookup with ⟨rfl, rfl⟩ | ⟨_, old⟩ | ⟨_, new⟩
    · rcases List.mem_append.mp listed with earlier | last
      · exact List.mem_append_left _ (entered other _ thread e earlier)
      · rw [List.mem_singleton.mp last]
        exact List.mem_append_right _ (List.mem_singleton.mpr rfl)
    · exact List.mem_append_left _ (entered other found old e listed)
    · obtain ⟨request, _, rfl⟩ := List.mem_map.mp new
      cases listed

/-- A history that has started with the pool. -/
structure Fresh (p : Pool I E S T) : Prop where
  threads : p.threads = []
  history : p.history = []

theorem Reaches.entered {ok : Pool I E S T → Move L T → Prop} {p q : Pool I E S T} (reaches : M.Reaches ok p q) (fresh : Fresh p) :
    Entered q := by
  apply reaches.invariant (k := Entered)
  · intro tid thread lookup
    rw [fresh.threads] at lookup
    cases lookup
  · exact fun _ move kept _ => kept.step move

/-- What the program of a request does accounts for every entry under the request. -/
theorem Reaches.accounts {ok : Pool I E S T → Move L T → Prop} {p q : Pool I E S T}
    (Q : T → (Issued I → Prop) → Issued I → Prop)
    (mono : ∀ request (seen seen' : Issued I → Prop) e, (∀ x, seen x → seen' x) → Q request seen e → Q request seen' e)
    (told : ∀ request, (M.program request).Safe (Prog.telling fun o log => ∀ r, Q request (· ∈ log) ⟨o, r⟩) (fun _ _ => True) [])
    (fresh : Fresh p) (reaches : M.Reaches ok p q) :
    Accounts (fun before e => Q e.1 (fun x => (e.1, x) ∈ before) e.2) q.history := by
  have traced : ∀ {u}, M.Reaches ok p u → M.Traced (fun _ _ => True) u := fun reached =>
    reached.traced (fun _ _ _ _ _ _ _ _ => trivial) (fun tid thread lookup => by rw [fresh.threads] at lookup; cases lookup)
  induction reaches with
  | refl =>
    rw [fresh.history]
    exact .nil
  | @tail u move before allowed ih =>
    generalize after : M.step u move = v
    have moved := after ▸ M.moved u move
    cases moved with
    | performs thread performed =>
      apply ih.snoc
      have own := before.entered fresh _ _ thread
      exact mono _ _ _ _ own ((traced before _ _ thread).1.permits (told _) _)
    | _ => exact ih

end System

end Cronova.Process
