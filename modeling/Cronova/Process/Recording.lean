import Cronova.Process.Interleaving

/-! Thread-modular reasoning about what has been issued so far, and beside a party that is no thread.

The history of a pool is no part of the state that a specification speaks about. `System.recorded`
is the same system with its history in the state; whatever is proved of it holds of the pools of the
system itself, also when something outside changes the state between two statements.
-/

set_option autoImplicit false

namespace Cronova.Process

variable {I : Signature} {E S L T : Type}

/-- The statements of a pool so far. -/
def Pool.issued (p : Pool I E S T) : List (Issued I) := p.history.map (·.2)

/-- The pool with its history in the state. -/
def Pool.recorded (p : Pool I E S T) : Pool I E (S × List (Issued I)) T := ⟨(p.state, p.issued), p.threads, p.history⟩

namespace System

/-- The system with the statements so far, and their replies, in the state. -/
def recorded (M : System I E S L T) : System I E (S × List (Issued I)) L T where
  perform tid o label s := (M.perform tid o label s.1).map fun (r, t, spawned) => (r, (t, s.2 ++ [⟨o, r⟩]), spawned)
  program := M.program
  admits := M.admits
  crash label s := (M.crash label s.1, s.2)
  boot := M.boot

variable {M : System I E S L T}

theorem recorded_some {tid : Nat} {o : I.Op} {label : L} {s t : S × List (Issued I)} {r : I.Reply o} {spawned : List T} :
    M.recorded.perform tid o label s = some (r, t, spawned) ↔
      M.perform tid o label s.1 = some (r, t.1, spawned) ∧ t.2 = s.2 ++ [⟨o, r⟩] := by
  obtain ⟨t, log⟩ := t
  unfold recorded
  simp only [Option.map_eq_some_iff, Prod.mk.injEq, Prod.exists]
  constructor
  · rintro ⟨_, _, _, performed, rfl, ⟨rfl, rfl⟩, rfl⟩
    exact ⟨performed, rfl⟩
  · rintro ⟨performed, rfl⟩
    exact ⟨r, t, spawned, performed, rfl, ⟨rfl, rfl⟩, rfl⟩

theorem step_recorded (p : Pool I E S T) (move : Move L T) : M.recorded.step p.recorded move = (M.step p move).recorded := by
  cases move with
  | restart label => rfl
  | start request =>
    have same : M.recorded.admits p.threads request = M.admits p.threads request := rfl
    simp only [step, Pool.recorded, same]
    split <;> rfl
  | step tid label =>
    have threads : p.recorded.threads = p.threads := rfl
    simp only [step, threads]
    split
    · rename_i origin log o k _
      cases performed : M.perform tid o label p.state with
      | none =>
        have waits : M.recorded.perform tid o label p.recorded.state = none := by
          simp only [recorded, Pool.recorded, performed, Option.map_none]
        simp only [waits]
      | some result =>
        obtain ⟨r, s, spawned⟩ := result
        have goes : M.recorded.perform tid o label p.recorded.state = some (r, (s, p.issued ++ [⟨o, r⟩]), spawned) := by
          simp only [recorded, Pool.recorded, performed, Option.map_some]
        simp only [goes]
        simp only [Pool.recorded, Pool.issued, List.map_append, List.map_cons, List.map_nil]
        rfl
    · rfl

theorem issued_step {p : Pool I E S T} {tid : Nat} {o : I.Op} {label : L} {r : I.Reply o} {s : S} {spawned : List T}
    (next : p.next tid = some o) (performed : M.perform tid o label p.state = some (r, s, spawned)) :
    (M.step p (.step tid label)).issued = p.issued ++ [⟨o, r⟩] := by
  cases lookup : p.threads[tid]? with
  | none => simp [Pool.next, lookup] at next
  | some thread =>
    obtain ⟨origin, log, rest⟩ := thread
    cases rest with
    | done _ => simp [Pool.next, lookup] at next
    | fail _ => simp [Pool.next, lookup] at next
    | call o' k =>
      rw [Pool.next_eq lookup] at next
      cases next
      simp only [step, lookup, performed, Pool.issued, List.map_append, List.map_cons, List.map_nil]

theorem step_issued (p : Pool I E S T) (move : Move L T) : p.issued <+: (M.step p move).issued := by
  generalize after : M.step p move = q
  have moved := after ▸ M.moved p move
  cases moved with
  | performs thread performed => exact (List.prefix_append p.history _).map _
  | _ => exact List.prefix_rfl

theorem run_issued (p : Pool I E S T) (moves : List (Move L T)) : p.issued <+: (M.run p moves).issued := by
  induction moves generalizing p with
  | nil => exact List.prefix_rfl
  | cons move moves ih => exact (step_issued p move).trans (ih (M.step p move))

theorem follows_any (p : Pool I E S T) (moves : List (Move L T)) : M.Follows (fun _ _ => True) p moves := by
  induction moves generalizing p with
  | nil => trivial
  | cons move moves ih => exact ⟨trivial, ih (M.step p move)⟩

variable (M)

/-- The pools that moves lead to while something outside changes the state between two statements. -/
inductive Visits (ok : Pool I E S T → Move L T → Prop) (outside : S → S → Prop) : Pool I E S T → Pool I E S T → Prop where
  | refl (p : Pool I E S T) : Visits ok outside p p
  | tail {p q : Pool I E S T} (move : Move L T) : Visits ok outside p q → ok q move → Visits ok outside p (M.step q move)
  | beside {p q : Pool I E S T} {s : S} : Visits ok outside p q → outside q.state s → Visits ok outside p { q with state := s }

variable {M} {ok : Pool I E S T → Move L T → Prop} {outside : S → S → Prop} {p q : Pool I E S T}

theorem Reaches.visits (reaches : M.Reaches ok p q) : M.Visits ok outside p q := by
  induction reaches with
  | refl => exact .refl _
  | tail move _ allowed ih => exact .tail move ih allowed

end System

namespace Protocol

variable {M : System I E S L T} {P : Protocol M.recorded} {ok : Pool I E S T → Move L T → Prop} {outside : S → S → Prop}
  {p q : Pool I E S T}

/-- What happens outside, between two statements, disturbs no thread. -/
theorem Good.beside (sound : P.Sound) {s : S} (good : P.Good p.recorded) (kept : P.inv (s, p.issued))
    (moved : ∀ tid, P.rely tid (p.state, p.issued) (s, p.issued)) :
    P.Good (Pool.recorded { p with state := s }) where
  inv := kept
  threads tid thread found := (good.threads tid thread found).relied sound (moved tid)

/-- Thread-modular reasoning about a system beside something outside. -/
theorem Sound.visits (sound : P.Sound) (visits : M.Visits ok outside p q)
    (admits : ∀ p move, ok p move → P.Admits p.recorded move)
    (disturbs : ∀ s t log, outside s t → P.inv (s, log) → P.inv (t, log) ∧ ∀ tid, P.rely tid (s, log) (t, log))
    (good : P.Good p.recorded) : P.Good q.recorded := by
  induction visits with
  | refl => exact good
  | tail move _ allowed ih =>
    rw [← System.step_recorded]
    exact ih.step sound (admits _ move allowed)
  | beside _ moved ih =>
    obtain ⟨kept, relied⟩ := disturbs _ _ _ moved ih.inv
    exact ih.beside sound kept relied

end Protocol

end Cronova.Process
