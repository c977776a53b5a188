import Cronova.Process.Contract

/-! Threads of programs interleaved at statement granularity, and thread-modular
reasoning about them.

A `Pool` holds one shared state and any number of threads. A move lets one thread
issue its next statement, starts a thread, or drops every thread at once and starts
afresh (a process restart). Every thread keeps the log of what it has issued and the
pool keeps the history of all of them; no statement reads either.
`Sound.reaches` is the rule that puts verified threads together.
-/

set_option autoImplicit false

namespace Cronova.Process

/-- A thread: the request it serves, what it has issued so far and the rest of its program. -/
structure Thread (I : Signature) (E T : Type) where
  origin : T
  log : List (Issued I)
  rest : Prog I E Unit

structure Pool (I : Signature) (E S T : Type) where
  state : S
  threads : List (Thread I E T)
  history : List (T × Issued I) := []

/-- The statement that a thread issues next. -/
def Pool.next {I : Signature} {E S T : Type} (p : Pool I E S T) (tid : Nat) : Option I.Op :=
  (p.threads[tid]?).bind fun thread => match thread.rest with
    | .call o _ => some o
    | _ => none

theorem Pool.next_eq {I : Signature} {E S T : Type} {p : Pool I E S T} {tid : Nat} {origin : T} {log : List (Issued I)}
    {o : I.Op} {k : I.Reply o → Prog I E Unit} (thread : p.threads[tid]? = some ⟨origin, log, .call o k⟩) :
    p.next tid = some o := by
  rw [next, thread]
  rfl

inductive Move (L T : Type) where
  | step (tid : Nat) (label : L)
  | start (request : T)
  | restart (label : L)

/-- A system of threads. A statement that cannot be issued now (a held lock) gives
`none` and its thread waits; a statement may start further threads. A restart drops
every thread and the state that a crash loses. -/
structure System (I : Signature) (E S L T : Type) where
  perform : Nat → (o : I.Op) → L → S → Option (I.Reply o × S × List T)
  program : T → Prog I E Unit
  admits : List (Thread I E T) → T → Bool
  crash : L → S → S
  boot : T

namespace System

variable {I : Signature} {E S L T : Type} (M : System I E S L T)

def thread (request : T) : Thread I E T := ⟨request, [], M.program request⟩

def step (p : Pool I E S T) : Move L T → Pool I E S T
  | .step tid label => match p.threads[tid]? with
    | some ⟨origin, log, .call o k⟩ => match M.perform tid o label p.state with
      | some (r, s, spawned) =>
        ⟨s, p.threads.set tid ⟨origin, log ++ [⟨o, r⟩], k r⟩ ++ spawned.map M.thread, p.history ++ [(origin, ⟨o, r⟩)]⟩
      | none => p
    | _ => p
  | .start request => if M.admits p.threads request then ⟨p.state, p.threads ++ [M.thread request], p.history⟩ else p
  | .restart label => ⟨M.crash label p.state, [M.thread M.boot], p.history⟩

/-- What one move does. -/
inductive Moved (p : Pool I E S T) : Move L T → Pool I E S T → Prop where
  | idle (move : Move L T) : Moved p move p
  | performs {tid : Nat} {label : L} {origin : T} {log : List (Issued I)} {o : I.Op} {k : I.Reply o → Prog I E Unit}
      {r : I.Reply o} {s : S} {spawned : List T} (thread : p.threads[tid]? = some ⟨origin, log, .call o k⟩)
      (performed : M.perform tid o label p.state = some (r, s, spawned)) :
      Moved p (.step tid label)
        ⟨s, p.threads.set tid ⟨origin, log ++ [⟨o, r⟩], k r⟩ ++ spawned.map M.thread, p.history ++ [(origin, ⟨o, r⟩)]⟩
  | starts {request : T} (admitted : M.admits p.threads request = true) :
      Moved p (.start request) ⟨p.state, p.threads ++ [M.thread request], p.history⟩
  | restarts (label : L) : Moved p (.restart label) ⟨M.crash label p.state, [M.thread M.boot], p.history⟩

theorem moved (p : Pool I E S T) (move : Move L T) : M.Moved p move (M.step p move) := by
  cases move with
  | start request =>
    simp only [step]
    split
    · rename_i admitted
      exact .starts admitted
    · exact .idle _
  | restart label => exact .restarts label
  | step tid label =>
    simp only [step]
    split
    · rename_i thread
      split
      · rename_i performed
        exact .performs thread performed
      · exact .idle _
    · exact .idle _

def run (p : Pool I E S T) : List (Move L T) → Pool I E S T
  | [] => p
  | move :: moves => run (M.step p move) moves

/-- Each move of the list is allowed where it is taken. -/
def Follows (ok : Pool I E S T → Move L T → Prop) (p : Pool I E S T) : List (Move L T) → Prop
  | [] => True
  | move :: moves => ok p move ∧ Follows ok (M.step p move) moves

/-- The pools that moves lead to, each move being taken where it is allowed. -/
inductive Reaches (ok : Pool I E S T → Move L T → Prop) : Pool I E S T → Pool I E S T → Prop where
  | refl (p : Pool I E S T) : Reaches ok p p
  | tail {p q : Pool I E S T} (move : Move L T) : Reaches ok p q → ok q move → Reaches ok p (M.step q move)

variable {M}

theorem Reaches.mono {ok other : Pool I E S T → Move L T → Prop} {p q : Pool I E S T}
    (reaches : M.Reaches ok p q) (implies : ∀ p move, ok p move → other p move) :
    M.Reaches other p q := by
  induction reaches with
  | refl => exact .refl _
  | tail move _ allowed ih => exact .tail move ih (implies _ _ allowed)

theorem Follows.reaches {ok : Pool I E S T → Move L T → Prop} {p q : Pool I E S T} {moves : List (Move L T)}
    (follows : M.Follows ok q moves) (before : M.Reaches ok p q) : M.Reaches ok p (M.run q moves) := by
  induction moves generalizing q with
  | nil => exact before
  | cons move moves ih => exact ih follows.2 (.tail move before follows.1)

/-- The rule of invariants over whole runs. -/
theorem Reaches.invariant {ok : Pool I E S T → Move L T → Prop} {k : Pool I E S T → Prop}
    {p q : Pool I E S T} (reaches : M.Reaches ok p q) (start : k p)
    (kept : ∀ p move, k p → ok p move → k (M.step p move)) : k q := by
  induction reaches with
  | refl => exact start
  | tail move _ allowed ih => exact kept _ move ih allowed

/-- The threads after a statement: the one that issued it, the others and the new ones. -/
theorem getElem?_performs {threads spawned : List (Thread I E T)} {tid other : Nat} {new found : Thread I E T}
    (lookup : (threads.set tid new ++ spawned)[other]? = some found) :
    (other = tid ∧ found = new) ∨ (other ≠ tid ∧ threads[other]? = some found) ∨ (threads.length ≤ other ∧ found ∈ spawned) := by
  rcases Nat.lt_or_ge other threads.length with old | fresh
  · rw [List.getElem?_append_left (by simpa using old)] at lookup
    by_cases same : other = tid
    · subst same
      have here : new = found := by simpa [List.getElem?_set, old] using lookup
      exact .inl ⟨rfl, here.symm⟩
    · have apart : ¬ tid = other := fun eq => same eq.symm
      exact .inr (.inl ⟨same, by simpa [List.getElem?_set, apart] using lookup⟩)
  · rw [List.getElem?_append_right (by simpa using fresh)] at lookup
    exact .inr (.inr ⟨fresh, List.mem_of_getElem? lookup⟩)

/-- The threads after a start: the old ones and the new one. -/
theorem getElem?_starts {threads : List (Thread I E T)} {new found : Thread I E T} {tid : Nat}
    (lookup : (threads ++ [new])[tid]? = some found) : threads[tid]? = some found ∨ (tid = threads.length ∧ found = new) := by
  rcases Nat.lt_or_ge tid threads.length with old | fresh
  · exact .inl (by rwa [List.getElem?_append_left old] at lookup)
  · rw [List.getElem?_append_right fresh] at lookup
    right
    have last : tid - threads.length = 0 := by
      by_contra later
      rw [List.getElem?_eq_none (by simp; omega)] at lookup
      cases lookup
    rw [last] at lookup
    exact ⟨by omega, by simpa using lookup.symm⟩

/-- A statement of one thread leaves the others where they are. -/
theorem step_other {p : Pool I E S T} {tid other : Nat} (label : L) {thread : Thread I E T} (apart : other ≠ tid)
    (lookup : p.threads[other]? = some thread) : (M.step p (.step tid label)).threads[other]? = some thread := by
  have bound : other < p.threads.length := (List.getElem?_eq_some_iff.mp lookup).1
  simp only [step]
  split
  · split
    · rw [List.getElem?_append_left (by simpa using bound), List.getElem?_set_ne (Ne.symm apart)]
      exact lookup
    · exact lookup
  · exact lookup

/-- The thread that has issued a statement goes on with the reply. -/
theorem step_own {p : Pool I E S T} {tid : Nat} {label : L} {origin : T} {log : List (Issued I)} {o : I.Op}
    {k : I.Reply o → Prog I E Unit} {r : I.Reply o} {s : S} {spawned : List T}
    (lookup : p.threads[tid]? = some ⟨origin, log, .call o k⟩) (performed : M.perform tid o label p.state = some (r, s, spawned)) :
    (M.step p (.step tid label)).threads[tid]? = some ⟨origin, log ++ [⟨o, r⟩], k r⟩ := by
  have bound : tid < p.threads.length := (List.getElem?_eq_some_iff.mp lookup).1
  simp only [step, lookup, performed]
  rw [List.getElem?_append_left (by simpa using bound), List.getElem?_set_self (by simpa using bound)]

theorem step_start {p : Pool I E S T} {tid : Nat} (request : T) {thread : Thread I E T}
    (lookup : p.threads[tid]? = some thread) : (M.step p (.start request)).threads[tid]? = some thread := by
  have bound : tid < p.threads.length := (List.getElem?_eq_some_iff.mp lookup).1
  simp only [step]
  split
  · rw [List.getElem?_append_left bound]
    exact lookup
  · exact lookup

section Traced

variable (M) (honest : (o : I.Op) → I.Reply o → Prop)

/-- Every thread is what its program has become, and its log holds honest replies only. -/
def Traced (p : Pool I E S T) : Prop :=
  ∀ (tid : Nat) (thread : Thread I E T), p.threads[tid]? = some thread →
    Prog.After (M.program thread.origin) thread.log thread.rest ∧ ∀ issued ∈ thread.log, honest issued.1 issued.2

variable {M honest}

theorem Traced.fresh (request : T) : Prog.After (M.program (M.thread request).origin) (M.thread request).log (M.thread request).rest ∧
    ∀ issued ∈ (M.thread request).log, honest issued.1 issued.2 :=
  ⟨.start, by simp [thread]⟩

theorem Traced.step (replies : ∀ tid o label s r t spawned, M.perform tid o label s = some (r, t, spawned) → honest o r)
    {p : Pool I E S T} (traced : M.Traced honest p) (move : Move L T) : M.Traced honest (M.step p move) := by
  generalize after : M.step p move = q
  have moved := after ▸ M.moved p move
  cases moved with
  | idle => exact traced
  | starts admitted =>
    intro tid thread lookup
    rcases getElem?_starts lookup with old | ⟨_, rfl⟩
    · exact traced tid thread old
    · exact Traced.fresh _
  | restarts label =>
    intro tid thread lookup
    obtain rfl := List.mem_singleton.mp (List.mem_of_getElem? lookup)
    exact Traced.fresh _
  | @performs tid label origin log o k r s spawned thread performed =>
    intro other found lookup
    rcases getElem?_performs lookup with ⟨rfl, rfl⟩ | ⟨_, old⟩ | ⟨_, new⟩
    · obtain ⟨before, honest⟩ := traced other _ thread
      refine ⟨.issue r before, fun issued member => ?_⟩
      rcases List.mem_append.mp member with earlier | last
      · exact honest issued earlier
      · obtain rfl := List.mem_singleton.mp last
        exact replies _ _ _ _ _ _ _ performed
    · exact traced other found old
    · obtain ⟨request, _, rfl⟩ := List.mem_map.mp new
      exact Traced.fresh request

theorem Reaches.traced (replies : ∀ tid o label s r t spawned, M.perform tid o label s = some (r, t, spawned) → honest o r)
    {ok : Pool I E S T → Move L T → Prop} {p q : Pool I E S T} (reaches : M.Reaches ok p q) (start : M.Traced honest p) :
    M.Traced honest q :=
  reaches.invariant start fun _ move kept _ => kept.step replies move

end Traced

end System

/-- A rely-guarantee specification of a system: which steps are considered (`allowed`,
`requests`, `restarts`), what always holds, what each thread may assume of the others, what
it may issue, and what holds once the thread of a request has ended. -/
structure Protocol {I : Signature} {E S L T : Type} (M : System I E S L T) where
  allowed : Nat → (o : I.Op) → L → S → Prop
  requests : T → Prop
  restarts : L → S → Prop
  inv : S → Prop
  rely : Nat → S → S → Prop
  may : Nat → I.Op → S → Prop
  post : Nat → T → Except E Unit → S → Prop

namespace Protocol

variable {I : Signature} {E S L T : Type} {M : System I E S L T} (P : Protocol M)

def contract (tid : Nat) : Contract I S where
  step o s r t := ∃ label spawned, P.allowed tid o label s ∧ M.perform tid o label s = some (r, t, spawned)
  inv := P.inv
  rely := P.rely tid
  may := P.may tid

def Verified (tid : Nat) (request : T) (s : S) : Prop :=
  (M.program request).Safe (P.contract tid) (P.post tid request) s

/-- The side conditions of thread-modular reasoning. -/
structure Sound : Prop where
  refl : ∀ tid s, P.rely tid s s
  trans : ∀ tid s t u, P.rely tid s t → P.rely tid t u → P.rely tid s u
  stable : ∀ tid request r s t, P.post tid request r s → P.rely tid s t → P.post tid request r t
  keeps : ∀ tid o label s r t spawned, P.inv s → P.may tid o s → P.allowed tid o label s →
    M.perform tid o label s = some (r, t, spawned) → P.inv t
  relies : ∀ tid o label s r t spawned, P.inv s → P.may tid o s → P.allowed tid o label s →
    M.perform tid o label s = some (r, t, spawned) → ∀ other, other ≠ tid → P.rely other s t
  spawns : ∀ tid o label s r t spawned, P.inv s → P.may tid o s → P.allowed tid o label s →
    M.perform tid o label s = some (r, t, spawned) → ∀ request ∈ spawned, ∀ other, 0 < other → P.Verified other request t
  starts : ∀ request s other, P.inv s → P.requests request → P.Verified other request s
  crashes : ∀ label s, P.inv s → P.restarts label s → P.inv (M.crash label s) ∧ P.Verified 0 M.boot (M.crash label s)

/-- The moves that the specification speaks about. -/
def Admits (p : Pool I E S T) : Move L T → Prop
  | .step tid label => ∀ o, p.next tid = some o → P.allowed tid o label p.state
  | .start request => P.requests request
  | .restart label => P.restarts label p.state

/-- A thread is verified from where it stands. -/
def Waits (tid : Nat) (thread : Thread I E T) (s : S) : Prop :=
  thread.rest.Safe (P.contract tid) (P.post tid thread.origin) s

structure Good (p : Pool I E S T) : Prop where
  inv : P.inv p.state
  threads : ∀ tid thread, p.threads[tid]? = some thread → P.Waits tid thread p.state

variable {P}

theorem Waits.relied (sound : P.Sound) {tid : Nat} {thread : Thread I E T} {s t : S} (waits : P.Waits tid thread s)
    (moved : P.rely tid s t) : P.Waits tid thread t := by
  obtain ⟨origin, log, rest⟩ := thread
  cases rest with
  | done a => exact sound.stable tid origin _ s t waits moved
  | fail e => exact sound.stable tid origin _ s t waits moved
  | call o k => exact Prog.Safe.relied (c := P.contract tid) (sound.trans tid) waits moved

theorem Good.performs (sound : P.Sound) {p : Pool I E S T} (good : P.Good p) {tid : Nat} {label : L} {origin : T}
    {log : List (Issued I)} {o : I.Op} {k : I.Reply o → Prog I E Unit} {r : I.Reply o} {s : S} {spawned : List T}
    (thread : p.threads[tid]? = some ⟨origin, log, .call o k⟩) (allowed : P.allowed tid o label p.state)
    (performed : M.perform tid o label p.state = some (r, s, spawned)) :
    P.may tid o p.state ∧ P.inv s ∧ (k r).Safe (P.contract tid) (P.post tid origin) s := by
  obtain ⟨may, next⟩ := good.threads tid _ thread p.state (sound.refl tid _) good.inv
  have kept := sound.keeps tid o label _ r s spawned good.inv may allowed performed
  exact ⟨may, kept, next r s ⟨label, spawned, allowed, performed⟩ kept⟩

theorem Good.step (sound : P.Sound) {p : Pool I E S T} (good : P.Good p) {move : Move L T} (admits : P.Admits p move) :
    P.Good (M.step p move) := by
  generalize after : M.step p move = q
  have moved := after ▸ M.moved p move
  cases moved with
  | idle => exact good
  | starts admitted =>
    refine ⟨good.inv, fun tid thread found => ?_⟩
    rcases System.getElem?_starts found with old | ⟨_, rfl⟩
    · exact good.threads tid thread old
    · exact sound.starts _ p.state tid good.inv admits
  | restarts label =>
    obtain ⟨kept, verified⟩ := sound.crashes label p.state good.inv admits
    refine ⟨kept, fun tid thread found => ?_⟩
    cases tid with
    | zero =>
      obtain rfl : M.thread M.boot = thread := by simpa using found
      exact verified
    | succ tid => simp at found
  | @performs tid label origin log o k r s spawned thread performed =>
    have allowed := admits o (Pool.next_eq thread)
    obtain ⟨may, kept, safe⟩ := good.performs sound thread allowed performed
    refine ⟨kept, fun other found lookup => ?_⟩
    rcases System.getElem?_performs lookup with ⟨rfl, rfl⟩ | ⟨apart, before⟩ | ⟨fresh, member⟩
    · exact safe
    · have relied := sound.relies tid o label _ r s spawned good.inv may allowed performed other apart
      exact (good.threads other found before).relied sound relied
    · obtain ⟨request, listed, rfl⟩ := List.mem_map.mp member
      have bound : tid < p.threads.length := (List.getElem?_eq_some_iff.mp thread).1
      exact sound.spawns tid o label _ r s spawned good.inv may allowed performed request listed other (by omega)

/-- Thread-modular reasoning: what is verified of each thread holds of the whole system. -/
theorem Sound.reaches (sound : P.Sound) {p q : Pool I E S T} (reaches : M.Reaches P.Admits p q) (good : P.Good p) :
    P.Good q :=
  reaches.invariant good fun _ _ kept admits => kept.step sound admits

end Protocol

end Cronova.Process
