import Cronova.Process.Program

/-! Contracts of programs.

A program is verified against a `Contract`: assuming the invariant and that the others
only move the state along `rely`, every statement it issues is one that it `may` issue.
`Safe` is the judgement and its rules follow the shape of programs.
-/

set_option autoImplicit false

namespace Cronova.Process

/-- What a thread may assume of the state and of the others, and what it may issue. -/
structure Contract (I : Signature) (S : Type) where
  step : (o : I.Op) → S → I.Reply o → S → Prop
  inv : S → Prop
  rely : S → S → Prop
  may : I.Op → S → Prop

namespace Prog

variable {I : Signature} {E A B S : Type}

/-- Every statement the program issues is permitted where it is issued, whatever the
others did before it, and the program ends in a state that satisfies `post`. -/
def Safe (c : Contract I S) : Prog I E A → (Except E A → S → Prop) → S → Prop
  | .done a, post, s => post (.ok a) s
  | .fail e, post, s => post (.error e) s
  | .call o k, post, s => ∀ s', c.rely s s' → c.inv s' →
      c.may o s' ∧ ∀ r t, c.step o s' r t → c.inv t → (k r).Safe c post t

variable {c : Contract I S}

theorem Safe.mono {p : Prog I E A} {q out : Except E A → S → Prop} {s : S}
    (safe : p.Safe c q s) (implies : ∀ r t, q r t → out r t) : p.Safe c out s := by
  induction p generalizing s with
  | done a => exact implies _ _ safe
  | fail e => exact implies _ _ safe
  | call o k ih =>
    intro s' relied holds
    obtain ⟨may, next⟩ := safe s' relied holds
    exact ⟨may, fun r t stepped kept => ih r (next r t stepped kept)⟩

/-- Two results of one program at once. -/
theorem Safe.and {p : Prog I E A} {q r : Except E A → S → Prop} {s : S} (first : p.Safe c q s) (second : p.Safe c r s) :
    p.Safe c (fun result t => q result t ∧ r result t) s := by
  induction p generalizing s with
  | done a => exact ⟨first, second⟩
  | fail e => exact ⟨first, second⟩
  | call o k ih =>
    intro t relied holds
    obtain ⟨permitted, onward⟩ := first t relied holds
    obtain ⟨_, onward'⟩ := second t relied holds
    exact ⟨permitted, fun reply u stepped kept => ih reply (onward reply u stepped kept) (onward' reply u stepped kept)⟩

/-- The rule of sequencing: an error skips the continuation. -/
theorem Safe.bind {p : Prog I E A} {k : A → Prog I E B} (mid : Except E A → S → Prop)
    {post : Except E B → S → Prop} {s : S} (safe : p.Safe c mid s)
    (ok : ∀ a t, mid (.ok a) t → (k a).Safe c post t)
    (error : ∀ e t, mid (.error e) t → post (.error e) t) : (p.bind k).Safe c post s := by
  induction p generalizing s with
  | done a => exact ok a s safe
  | fail e => exact error e s safe
  | call o next ih =>
    intro s' relied holds
    obtain ⟨may, rest⟩ := safe s' relied holds
    exact ⟨may, fun r t stepped kept => ih r (rest r t stepped kept)⟩

/-- Continuations that agree on every result that can come up are one continuation. -/
theorem Safe.bind_congr {p : Prog I E A} {k k' : A → Prog I E B} {post : Except E A → S → Prop} {s : S}
    (safe : p.Safe ⟨fun _ _ _ _ => True, fun _ => True, fun _ _ => True, fun _ _ => True⟩ post s)
    (agree : ∀ a t, post (.ok a) t → k a = k' a) : p.bind k = p.bind k' := by
  induction p generalizing s with
  | done a => exact agree a s safe
  | fail e => rfl
  | call o next ih =>
    have rest := (safe s trivial trivial).2
    exact congrArg (Prog.call o) (funext fun r => ih r (rest r s trivial trivial))

theorem Safe.attempt {p : Prog I E A} {post : Except E (Except E A) → S → Prop} {s : S}
    (safe : p.Safe c (fun r t => post (.ok r) t) s) : p.attempt.Safe c post s := by
  induction p generalizing s with
  | done a => exact safe
  | fail e => exact safe
  | call o next ih =>
    intro s' relied holds
    obtain ⟨may, rest⟩ := safe s' relied holds
    exact ⟨may, fun r t stepped kept => ih r (rest r t stepped kept)⟩

/-- The postcondition of a program that never fails. -/
def returns (post : A → S → Prop) : Except E A → S → Prop
  | .ok a, s => post a s
  | .error _, _ => False

theorem Safe.andThen {p : Prog I E A} {k : A → Prog I E B} (mid : A → S → Prop)
    {post : Except E B → S → Prop} {s : S} (safe : p.Safe c (returns mid) s)
    (ok : ∀ a t, mid a t → (k a).Safe c post t) : (p.bind k).Safe c post s :=
  Safe.bind _ safe ok fun _ _ impossible => impossible.elim

/-- The postcondition of one round of a loop: go on with `keep`, or leave with `post`. -/
def onward (keep : A → S → Prop) (post : Except E B → S → Prop) : Except E A → S → Prop
  | .ok a, s => keep a s
  | .error e, s => post (.error e) s

/-- The loop rule: `keep` holds of the items still to come, the accumulator and the
state before every round, and every round that ends with an error establishes `post`. -/
theorem Safe.fold {body : A → B → Prog I E A} (keep : List B → A → S → Prop)
    {post : Except E A → S → Prop} {items : List B} {a : A} {s : S} (start : keep items a s)
    (round : ∀ b rest a t, keep (b :: rest) a t →
      (body a b).Safe c (onward (keep rest) post) t)
    (finish : ∀ a t, keep [] a t → post (.ok a) t) : (Prog.fold body items a).Safe c post s := by
  induction items generalizing a s with
  | nil => exact finish a s start
  | cons b rest ih =>
    exact Safe.bind _ (round b rest a s start) (fun a' t kept => ih kept) (fun e t failed => failed)

theorem Safe.forEach {body : B → Prog I E Unit} (keep : List B → S → Prop)
    {post : Except E Unit → S → Prop} {items : List B} {s : S} (start : keep items s)
    (round : ∀ b rest t, keep (b :: rest) t →
      (body b).Safe c (onward (fun _ => keep rest) post) t)
    (finish : ∀ t, keep [] t → post (.ok ()) t) : (Prog.forEach items body).Safe c post s :=
  Safe.fold (fun rest _ t => keep rest t) start
    (fun b rest _ t kept => round b rest t kept) (fun _ t kept => finish t kept)

/-- A weaker contract: fewer outcomes, fewer states, less interference, more permission. -/
theorem Safe.weaken {d : Contract I S} {p : Prog I E A} {post : Except E A → S → Prop} {s : S}
    (safe : p.Safe c post s) (step : ∀ o s r t, d.inv s → d.step o s r t → c.step o s r t)
    (inv : ∀ s, d.inv s → c.inv s) (rely : ∀ s t, d.rely s t → c.rely s t)
    (may : ∀ o s, d.inv s → c.may o s → d.may o s) : p.Safe d post s := by
  induction p generalizing s with
  | done a => exact safe
  | fail e => exact safe
  | call o k ih =>
    intro s' relied holds
    obtain ⟨permitted, next⟩ := safe s' (rely s s' relied) (inv s' holds)
    refine ⟨may o s' holds permitted, fun r t stepped kept => ?_⟩
    exact ih r (next r t (step o s' r t holds stepped) (inv t kept))

/-- What the others do does not spoil the next statement of a program. -/
theorem Safe.relied (trans : ∀ s t u, c.rely s t → c.rely t u → c.rely s u) {o : I.Op} {k : I.Reply o → Prog I E A}
    {post : Except E A → S → Prop} {s t : S} (safe : (Prog.call o k).Safe c post s) (moved : c.rely s t) :
    (Prog.call o k).Safe c post t :=
  fun s' relied holds => safe s' (trans s t s' moved relied) holds

/-- The configurations that a single program passes through while others act in between. -/
inductive Exec (c : Contract I S) : Prog I E A → S → Prog I E A → S → Prop where
  | refl (p : Prog I E A) (s : S) : Exec c p s p s
  | others {p q : Prog I E A} {s t u : S} : Exec c p s q t → c.rely t u → Exec c p s q u
  | issue {p : Prog I E A} {o : I.Op} {k : I.Reply o → Prog I E A} {s t u : S} {r : I.Reply o} :
      Exec c p s (.call o k) t → c.step o t r u → Exec c p s (k r) u

/-- Steps of one contract are steps of another that allows as much. -/
theorem Exec.allow {c d : Contract I S} {p q : Prog I E A} {s t : S} (ran : Exec c p s q t)
    (rely : ∀ s t, c.rely s t → d.rely s t) (step : ∀ o s r t, c.step o s r t → d.step o s r t) : Exec d p s q t := by
  induction ran with
  | refl => exact .refl _ _
  | others _ moved ih => exact ih.others (rely _ _ moved)
  | issue _ stepped ih => exact ih.issue (step _ _ _ _ stepped)

/-- A verified program that has ended has established what it was verified for; before that it
is still verified, and the invariant holds. -/
theorem Safe.ends {post : Except E A → S → Prop} {p q : Prog I E A} {s t : S} (safe : p.Safe c post s) (start : c.inv s)
    (refl : ∀ s, c.rely s s) (trans : ∀ s t u, c.rely s t → c.rely t u → c.rely s u)
    (others : ∀ s t, c.inv s → c.rely s t → c.inv t)
    (permitted : ∀ o s r t, c.inv s → c.may o s → c.step o s r t → c.inv t) (stable : ∀ r s t, c.rely s t → post r s → post r t)
    (ran : Exec c p s q t) : c.inv t ∧ q.Safe c post t := by
  induction ran with
  | refl => exact ⟨start, safe⟩
  | @others q s t u ran moved ih =>
    obtain ⟨kept, still⟩ := ih safe start
    refine ⟨others _ _ kept moved, ?_⟩
    cases q with
    | done a => exact stable _ _ _ moved still
    | fail e => exact stable _ _ _ moved still
    | call o k => exact still.relied trans moved
  | issue ran stepped ih =>
    obtain ⟨kept, still⟩ := ih safe start
    obtain ⟨may, next⟩ := still _ (refl _) kept
    have holds := permitted _ _ _ _ kept may stepped
    exact ⟨holds, next _ _ stepped holds⟩

/-- A verified program keeps the invariant, if the others and its permitted statements do. -/
theorem Safe.exec {p q : Prog I E A} {s t : S} (safe : p.Safe c (fun _ _ => True) s) (start : c.inv s)
    (refl : ∀ s, c.rely s s) (trans : ∀ s t u, c.rely s t → c.rely t u → c.rely s u)
    (others : ∀ s t, c.inv s → c.rely s t → c.inv t)
    (permitted : ∀ o s r t, c.inv s → c.may o s → c.step o s r t → c.inv t) (ran : Exec c p s q t) :
    c.inv t ∧ q.Safe c (fun _ _ => True) t :=
  safe.ends start refl trans others permitted (fun _ _ _ _ holds => holds) ran

/-- The contract of a thread whose promise does not depend on any reply. -/
def blind (may : I.Op → Prop) : Contract I Unit where
  step _ _ _ _ := True
  inv _ := True
  rely _ _ := True
  may o _ := may o

theorem Safe.issue {may : I.Op → Prop} {o : I.Op} {k : I.Reply o → Prog I E B} {post : Except E B → Unit → Prop}
    (permitted : may o) (next : ∀ r, (k r).Safe (blind may) post ()) : ((perform o).bind k).Safe (blind may) post () :=
  fun _ _ _ => ⟨permitted, fun r _ _ _ => next r⟩

theorem Safe.run {may : I.Op → Prop} {p : Prog I E A} {post : Except E A → Unit → Prop} (safe : p.Safe (blind may) post ())
    (h : Handler I S) (s : S) : post (p.run h s).1 () := by
  induction p generalizing s with
  | done a => exact safe
  | fail e => exact safe
  | call o k ih => exact ih _ ((safe () trivial trivial).2 _ () trivial trivial) _

/-- What every permitted statement keeps, the run of a program keeps. -/
theorem Safe.run_keeps {may : I.Op → Prop} {p : Prog I E A} {post : Except E A → Unit → Prop}
    (safe : p.Safe (blind may) post ()) (h : Handler I S) (keep : S → S → Prop) (refl : ∀ s, keep s s)
    (trans : ∀ s t u, keep s t → keep t u → keep s u) (step : ∀ o s, may o → keep s (h o s).2) (s : S) :
    keep s (p.run h s).2 := by
  induction p generalizing s with
  | done a => exact refl s
  | fail e => exact refl s
  | call o k ih =>
    obtain ⟨permitted, next⟩ := safe () trivial trivial
    exact trans _ _ _ (step o s permitted) (ih _ (next _ () trivial trivial) _)

/-- A promise about the statements alone, read inside any contract: what every permitted
statement and the others keep, the program keeps. -/
theorem Safe.framed {may : I.Op → Prop} {p : Prog I E A} {post : Except E A → Unit → Prop} (safe : p.Safe (blind may) post ())
    (keep : S → S → Prop) (refl : ∀ s, keep s s) (trans : ∀ s t u, keep s t → keep t u → keep s u)
    (rely : ∀ s t, c.rely s t → keep s t) (step : ∀ o s r t, may o → c.inv s → c.step o s r t → keep s t) (s : S)
    (permit : ∀ o t, keep s t → c.inv t → may o → c.may o t) : p.Safe c (fun r t => post r () ∧ keep s t) s := by
  induction p generalizing s with
  | done a => exact ⟨safe, refl s⟩
  | fail e => exact ⟨safe, refl s⟩
  | call o k ih =>
    obtain ⟨permitted, next⟩ := safe () trivial trivial
    intro s' relied holds
    have before : keep s s' := rely s s' relied
    refine ⟨permit o s' before holds permitted, fun r t stepped kept => ?_⟩
    have moved : keep s t := trans _ _ _ before (step o s' r t permitted holds stepped)
    have later := ih r (next r () trivial trivial) t fun o u onwards => permit o u (trans _ _ _ moved onwards)
    exact later.mono fun _ u ended => ⟨ended.1, trans _ _ _ moved ended.2⟩

/-- What a program returns whatever it is answered, it returns under any contract that permits it. -/
theorem Safe.anywhere {p : Prog I E A} {post : Except E A → Prop} (safe : p.Safe (blind fun _ => True) (fun r _ => post r) ())
    (free : ∀ o s, c.may o s) (s : S) : p.Safe c (fun r _ => post r) s := by
  induction p generalizing s with
  | done a => exact safe
  | fail e => exact safe
  | call o k ih =>
    intro s' _ _
    exact ⟨free o s', fun r t _ _ => ih r ((safe () trivial trivial).2 r () trivial trivial) t⟩

/-- The contract of a program that runs alone, over the states that satisfy `inv`. -/
def sequential (h : Handler I S) (inv : S → Prop) : Contract I S where
  step o s r t := h o s = (r, t)
  inv := inv
  rely := Eq
  may _ _ := True

/-- It takes its configurations in turn. -/
theorem exec_run (h : Handler I S) (inv : S → Prop) (p : Prog I E A) (s : S) :
    Exec (sequential h inv) p s (ofExcept (p.run h s).1) (p.run h s).2 := by
  suffices ∀ (first : Prog I E A) (start : S), Exec (sequential h inv) first start p s →
      Exec (sequential h inv) first start (ofExcept (p.run h s).1) (p.run h s).2 from this p s (.refl p s)
  intro first start ran
  induction p generalizing s with
  | done a => exact ran
  | fail e => exact ran
  | call o k ih => exact ih _ _ (ran.issue rfl)

theorem run_back {h : Handler I S} {inv : S → Prop} (back : ∀ o s, inv (h o s).2 → inv s) (p : Prog I E A) {s : S}
    (final : inv (p.run h s).2) : inv s := by
  induction p generalizing s with
  | done a => exact final
  | fail e => exact final
  | call o k ih => exact back o s (ih _ final)

theorem run_kept {h : Handler I S} {inv : S → Prop} (kept : ∀ o s, inv s → inv (h o s).2) (p : Prog I E A) {s : S}
    (start : inv s) : inv (p.run h s).2 := by
  induction p generalizing s with
  | done a => exact start
  | fail e => exact start
  | call o k ih => exact ih _ (kept o s start)

/-- What is verified of a program holds of its run, if the run ends in a state whose
predecessors all satisfy `inv`. -/
theorem Safe.runs {h : Handler I S} {inv : S → Prop} {p : Prog I E A} {post : Except E A → S → Prop} {s : S}
    (safe : p.Safe (sequential h inv) post s) (back : ∀ o s, inv (h o s).2 → inv s) (final : inv (p.run h s).2) :
    inv s ∧ post (p.run h s).1 (p.run h s).2 := by
  induction p generalizing s with
  | done a => exact ⟨final, safe⟩
  | fail e => exact ⟨final, safe⟩
  | call o k ih =>
    have next : inv (h o s).2 → (k (h o s).1).Safe (sequential h inv) post (h o s).2 := fun holds =>
      (safe s rfl (back o s holds)).2 _ _ rfl holds
    have holds : inv (h o s).2 := run_back back (k (h o s).1) final
    exact ⟨back o s holds, (ih _ (next holds) final).2⟩

/-- What is verified of a program holds of its run, if the handler keeps `inv`. -/
theorem Safe.runs_on {h : Handler I S} {inv : S → Prop} {p : Prog I E A} {post : Except E A → S → Prop} {s : S}
    (safe : p.Safe (sequential h inv) post s) (kept : ∀ o s, inv s → inv (h o s).2) (start : inv s) :
    post (p.run h s).1 (p.run h s).2 := by
  induction p generalizing s with
  | done a => exact safe
  | fail e => exact safe
  | call o k ih =>
    have next := (safe s rfl start).2 _ _ rfl (kept o s start)
    exact ih _ next (kept o s start)

/-- What a program has become once it has issued the statements of a log. -/
inductive After (p : Prog I E A) : List (Issued I) → Prog I E A → Prop where
  | start : After p [] p
  | issue {log : List (Issued I)} {o : I.Op} {k : I.Reply o → Prog I E A} (r : I.Reply o) :
      After p log (.call o k) → After p (log ++ [⟨o, r⟩]) (k r)

/-- A run that is recorded is one way for the program to go on. -/
theorem After.recorded {p rest : Prog I E A} {log : List (Issued I)} (h : Handler I S) (after : After p log rest) (s : S) :
    After p (rest.run (Prog.recorded h) (s, log)).2.2 (ofExcept (rest.run (Prog.recorded h) (s, log)).1) := by
  induction rest generalizing s log with
  | done a => exact after
  | fail e => exact after
  | call o k ih => exact ih _ (after.issue _) _

/-- The handler has given every reply of the record. -/
theorem recorded_replies {rest : Prog I E A} {log : List (Issued I)} (h : Handler I S) (s : S) {issued : Issued I}
    (member : issued ∈ (rest.run (Prog.recorded h) (s, log)).2.2) :
    issued ∈ log ∨ ∃ t, issued.2 = (h issued.1 t).1 := by
  induction rest generalizing s log with
  | done a => exact .inl member
  | fail e => exact .inl member
  | call o k ih =>
    rcases ih _ _ member with before | later
    · rcases List.mem_append.mp before with old | new
      · exact .inl old
      · obtain rfl := List.mem_singleton.mp new
        exact .inr ⟨s, rfl⟩
    · exact .inr later

/-- A recorded run adds to the record. -/
theorem recorded_extends (rest : Prog I E A) (log : List (Issued I)) (h : Handler I S) (s : S) :
    ∃ more, (rest.run (Prog.recorded h) (s, log)).2.2 = log ++ more := by
  induction rest generalizing s log with
  | done a => exact ⟨[], (List.append_nil _).symm⟩
  | fail e => exact ⟨[], (List.append_nil _).symm⟩
  | call o k ih =>
    obtain ⟨more, whole⟩ := ih (h o s).1 (log ++ [⟨o, (h o s).1⟩]) (h o s).2
    rw [List.append_assoc] at whole
    exact ⟨⟨o, (h o s).1⟩ :: more, whole⟩

section Tracking

variable {V : Type} (next : V → (o : I.Op) → I.Reply o → V) (honest : (o : I.Op) → I.Reply o → Prop) (may : I.Op → V → Prop)

/-- The contract of a program that is judged by what it has issued itself: `next` is what it
learns from a reply, and the replies that it can get are the `honest` ones. -/
def tracking : Contract I V where
  step o v r u := honest o r ∧ u = next v o r
  inv _ := True
  rely := Eq
  may := may

/-- What a program has learnt from its log. -/
def view (start : V) (log : List (Issued I)) : V := log.foldl (fun v issued => next v issued.1 issued.2) start

@[simp] theorem view_nil (start : V) : view next start [] = start := rfl

@[simp] theorem view_append (start : V) (log : List (Issued I)) (issued : Issued I) :
    view next start (log ++ [issued]) = next (view next start log) issued.1 issued.2 := by
  simp [view]

variable {next honest may} {p rest : Prog I E A} {post : Except E A → V → Prop} {start v : V}

theorem Safe.tracked {o : I.Op} {k : I.Reply o → Prog I E A} (permitted : may o v)
    (onward : ∀ r, honest o r → (k r).Safe (tracking next honest may) post (next v o r)) :
    (Prog.call o k).Safe (tracking next honest may) post v := by
  intro u same _
  cases same
  refine ⟨permitted, fun r t stepped _ => ?_⟩
  rw [stepped.2]
  exact onward r stepped.1

theorem After.safe {log : List (Issued I)} (after : After p log rest) (replies : ∀ issued ∈ log, honest issued.1 issued.2)
    (safe : p.Safe (tracking next honest may) post start) : rest.Safe (tracking next honest may) post (view next start log) := by
  induction after with
  | start => exact safe
  | @issue log o k r _ ih =>
    rw [view_append]
    have before := ih fun issued member => replies issued (List.mem_append_left _ member)
    have answered : honest o r := replies ⟨o, r⟩ (by simp)
    exact (before _ rfl trivial).2 r _ ⟨answered, rfl⟩ trivial

end Tracking

end Prog

end Cronova.Process
