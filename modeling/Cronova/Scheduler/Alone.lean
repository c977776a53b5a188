import Cronova.Scheduler.Frame

/-! The rules of a program that runs alone: what each of its statements finds in the store
and leaves there, whatever the surroundings answer. -/

set_option autoImplicit false

namespace Cronova.Scheduler

open Model Store Process

variable {A B : Type} {inv : World × List Answer → Prop} {s : World × List Answer}

/-- The database serves every statement. -/
def Reliable (inv : World × List Answer → Prop) : Prop := ∀ s, inv s → (s.2.headD {}).served = true

/-- Every answer that is left is one of a database that serves. -/
def Served (s : World × List Answer) : Prop := ∀ a ∈ s.2, a.served = true

theorem Served.reliable : Reliable Served := by
  intro s served
  cases answers : s.2 with
  | nil => rfl
  | cons a rest => exact served a (by simp [answers])

theorem replay_answers (o : Op) (s : World × List Answer) : (World.replay o s).2.2 = s.2.tail := by
  obtain ⟨w, answers⟩ := s
  unfold World.replay
  dsimp only
  split <;> rfl

/-- What holds of every answer that is left still does after a statement. -/
theorem replay_left {good : Answer → Prop} (o : Op) (s : World × List Answer) (left : ∀ a ∈ s.2, good a) :
    ∀ a ∈ (World.replay o s).2.2, good a := by
  intro a member
  rw [replay_answers] at member
  exact left a (List.mem_of_mem_tail member)

/-- The world holds this database, and is `w` besides. -/
structure Holds (db : DB) (w v : World) : Prop where
  db : v.db = db
  cache : v.cache = w.cache

theorem Holds.refl (w : World) : Holds w.db w w := ⟨rfl, rfl⟩

/-- One answer of a statement that fails: of itself, or because it was not served. -/
def Refused {R : Type} (found : Except StoreError R) (served : Prop) (e : StoreError) : Prop :=
  found = .error e ∨ (e = .unavailable ∧ ¬ served)

theorem World.read_spec {R : Type} (a : Answer) (w : World) (found : Except StoreError R) :
    ∃ reply v, w.read a found = some (reply, v, []) ∧ v = w ∧
      ((a.served = true ∧ reply = found) ∨ (a.served = false ∧ reply = .error .unavailable)) := by
  cases served : a.served with
  | true => exact ⟨found, w, by rw [World.read, if_pos served], rfl, .inl ⟨rfl, rfl⟩⟩
  | false => exact ⟨.error .unavailable, w, by rw [World.read, if_neg (by simp [served])], rfl, .inr ⟨rfl, rfl⟩⟩

theorem World.write_spec (a : Answer) (w : World) (found : Except StoreError DB) (trail : Trail) :
    ∃ reply v, w.write a found trail = some (reply, v, []) ∧ v.cache = w.cache ∧
      ((∃ db, found = .ok db ∧ reply = .ok () ∧ v.db = db) ∨
        ∃ e, reply = .error e ∧ v.db = w.db ∧ Refused found (a.served = true) e) := by
  unfold World.write
  cases served : a.served with
  | false => exact ⟨.error .unavailable, w, rfl, rfl, .inr ⟨_, rfl, rfl, .inr ⟨rfl, by simp⟩⟩⟩
  | true =>
    cases found with
    | ok db => exact ⟨.ok (), { w with db, trail }, rfl, rfl, .inl ⟨db, rfl, rfl, rfl⟩⟩
    | error e => exact ⟨.error e, w, rfl, rfl, .inr ⟨e, rfl, rfl, .inl rfl⟩⟩

/-- One statement as it is replayed. -/
theorem replay_eq {o : Op} {reply : o.Reply} {v : World} {spawned : List Request}
    (performed : World.perform 0 o (s.2.headD {}) s.1 = some (reply, v, spawned)) : World.replay o s = (reply, v, s.2.tail) := by
  obtain ⟨w, answers⟩ := s
  simp only [World.replay, performed]
  rfl

/-- A statement that reads: it answers what is stored, or that the database is not available. -/
theorem alone_read {o : Op} {get : o.Reply → Except StoreError A} {k : A → Act B} {post : Except Failure B → World × List Answer → Prop}
    {found : Except StoreError A}
    (reads : ∀ a, ∃ reply v, World.perform 0 o a s.1 = some (reply, v, []) ∧ Holds s.1.db s.1 v ∧
      ((a.served = true ∧ get reply = found) ∨ (a.served = false ∧ get reply = .error .unavailable)))
    (ok : ∀ a t, found = .ok a → Holds s.1.db s.1 t.1 → inv t → (k a).Safe (Prog.sequential World.replay inv) post t)
    (error : ∀ e t, Refused found (Reliable inv) e → Holds s.1.db s.1 t.1 → inv t → post (.error (.store e)) t) :
    (ask o get >>= k).Safe (Prog.sequential World.replay inv) post s := by
  rintro _ rfl holds
  refine ⟨trivial, fun reply t stepped kept => ?_⟩
  obtain ⟨reply', v, performed, world, answered⟩ := reads (s.2.headD {})
  obtain ⟨rfl, rfl⟩ := Prod.mk.inj (stepped.symm.trans (replay_eq performed))
  dsimp only
  rcases answered with ⟨_, same⟩ | ⟨unserved, failed⟩
  · rw [same]
    cases shown : found with
    | ok a => exact ok a _ shown world kept
    | error e => exact error e _ (.inl shown) world kept
  · rw [failed]
    refine error _ _ (.inr ⟨rfl, fun reliable => ?_⟩) world kept
    rw [reliable s holds] at unserved
    cases unserved

/-- A statement that writes: it happens as a whole or not at all. -/
theorem alone_write {o : Op} {get : o.Reply → Except StoreError Unit} {k : Unit → Act B}
    {post : Except Failure B → World × List Answer → Prop} {found : Except StoreError DB}
    (writes : ∀ a, ∃ reply v, World.perform 0 o a s.1 = some (reply, v, []) ∧ v.cache = s.1.cache ∧
      ((∃ db, found = .ok db ∧ get reply = .ok () ∧ v.db = db) ∨
        ∃ e, get reply = .error e ∧ v.db = s.1.db ∧ Refused found (a.served = true) e))
    (ok : ∀ db t, found = .ok db → Holds db s.1 t.1 → inv t → (k ()).Safe (Prog.sequential World.replay inv) post t)
    (error : ∀ e t, Refused found (Reliable inv) e → Holds s.1.db s.1 t.1 → inv t → post (.error (.store e)) t) :
    (ask o get >>= k).Safe (Prog.sequential World.replay inv) post s := by
  have answers (v : World × List Answer) (same : s = v) (holds : inv v) (reply : o.Reply) (t : World × List Answer)
      (stepped : World.replay o v = (reply, t)) : t.1.cache = s.1.cache ∧
        ((∃ db, found = .ok db ∧ get reply = .ok () ∧ t.1.db = db) ∨
          ∃ e, get reply = .error e ∧ t.1.db = s.1.db ∧ Refused found (Reliable inv) e) := by
    subst same
    obtain ⟨reply', v, performed, cache, answered⟩ := writes (s.2.headD {})
    obtain ⟨rfl, rfl⟩ := Prod.mk.inj (stepped.symm.trans (replay_eq performed))
    refine ⟨cache, answered.imp_right ?_⟩
    rintro ⟨e, failed, same, refused⟩
    exact ⟨e, failed, same, refused.imp_right fun unserved => ⟨unserved.1, fun reliable => unserved.2 (reliable s holds)⟩⟩
  refine safe_ask (fun _ _ _ => trivial) ?_ ?_
  · intro v reply t _ same holds stepped kept shown
    obtain ⟨cache, ⟨db, written, _, now⟩ | ⟨e, failed, _⟩⟩ := answers v same holds reply t stepped
    · exact ok db t written ⟨now, cache⟩ kept
    · rw [shown] at failed
      cases failed
  · intro v reply t e same holds stepped kept shown
    obtain ⟨cache, ⟨db, _, done, _⟩ | ⟨e', failed, world, refused⟩⟩ := answers v same holds reply t stepped
    · rw [shown] at done
      cases done
    · obtain rfl := Except.error.inj (shown.symm.trans failed)
      exact error e t refused ⟨world, cache⟩ kept

/-- The same for the last statement of a program. -/
theorem alone_write_last {o : Op} {get : o.Reply → Except StoreError Unit}
    {post : Except Failure Unit → World × List Answer → Prop} {found : Except StoreError DB}
    (writes : ∀ a, ∃ reply v, World.perform 0 o a s.1 = some (reply, v, []) ∧ v.cache = s.1.cache ∧
      ((∃ db, found = .ok db ∧ get reply = .ok () ∧ v.db = db) ∨
        ∃ e, get reply = .error e ∧ v.db = s.1.db ∧ Refused found (a.served = true) e))
    (ok : ∀ db t, found = .ok db → Holds db s.1 t.1 → inv t → post (.ok ()) t)
    (error : ∀ e t, Refused found (Reliable inv) e → Holds s.1.db s.1 t.1 → inv t → post (.error (.store e)) t) :
    (ask o get).Safe (Prog.sequential World.replay inv) post s := by
  have whole := alone_write (k := fun _ => pure ()) writes (fun db t written world kept => ok db t written world kept) error
  rwa [show (ask o get >>= fun _ => pure ()) = ask o get from Prog.bind_done _] at whole

/-- A statement that leaves the store and the cache alone. -/
theorem alone_perform {o : Op} {k : o.Reply → Act B} {post : Except Failure B → World × List Answer → Prop}
    (good : Answer → o.Reply → Prop)
    (performs : ∀ a, ∃ reply v spawned, World.perform 0 o a s.1 = some (reply, v, spawned) ∧ Holds s.1.db s.1 v ∧ good a reply)
    (onward : ∀ reply t, inv s → good (s.2.headD {}) reply → Holds s.1.db s.1 t.1 → inv t →
      (k reply).Safe (Prog.sequential World.replay inv) post t) :
    (perform o >>= k).Safe (Prog.sequential World.replay inv) post s := by
  rintro _ rfl holds
  refine ⟨trivial, fun reply t stepped kept => ?_⟩
  obtain ⟨reply', v, spawned, performed, world, shown⟩ := performs (s.2.headD {})
  obtain ⟨rfl, rfl⟩ := Prod.mk.inj (stepped.symm.trans (replay_eq performed))
  exact onward _ _ holds shown world kept

theorem replay_lock (what : Section) (s : World × List Answer) : Holds s.1.db s.1 (World.replay (.lock what) s).2.1 := by
  obtain ⟨reply, t, stepped⟩ : ∃ reply t, World.replay (.lock what) s = (reply, t) := ⟨_, _, rfl⟩
  rw [stepped]
  rcases World.replay_step stepped with ⟨a, spawned, performed⟩ | ⟨_, idle⟩
  · obtain ⟨cache, _, _, same | written⟩ := World.perform_some performed
    · exact ⟨same, cache rfl⟩
    · cases written
  · rw [idle]
    exact Holds.refl _

/-- The lock hides nothing of a program that runs alone. -/
theorem alone_locked {what : Section} {body : Act A} (post : Except Failure A → World → Prop)
    (safe : ∀ t, Holds s.1.db s.1 t.1 → inv t →
      body.Safe (Prog.sequential World.replay inv) (fun r u => ∀ v, Holds u.1.db u.1 v → post r v) t) :
    (locked what body).Safe (Prog.sequential World.replay inv) (fun r t => post r t.1) s := by
  rintro _ rfl _
  refine ⟨trivial, fun _ t stepped kept => ?_⟩
  have same : Holds s.1.db s.1 t.1 := by
    have entered := replay_lock what s
    rwa [show World.replay (.lock what) s = _ from stepped] at entered
  show Prog.Safe _ (Prog.bind body.attempt _) _ t
  refine Prog.Safe.andThen (fun result (u : World × List Answer) => ∀ v, Holds u.1.db u.1 v → post result v)
    (Prog.Safe.attempt (safe t same kept)) fun result u ended => ?_
  rintro _ rfl _
  refine ⟨trivial, fun _ v stepped _ => ?_⟩
  have freed : Holds u.1.db u.1 v.1 := by
    cases stepped
    exact ⟨rfl, rfl⟩
  cases result with
  | ok a => exact ended v.1 freed
  | error e => exact ended v.1 freed

end Cronova.Scheduler
