import Cronova.Secrets.Cipher
import Cronova.Table

/-! The connections of the store. Sealed passwords and passwords from before encryption share one
column. A statement of the database may fail, and so may the source of the nonces. -/

set_option autoImplicit false

namespace Cronova.Secrets

open Base64 (Bytes)

structure Connection where
  id : String
  type : String := ""
  host : String := ""
  port : Int := 0
  login : String := ""
  password : Bytes := []
  extra : String := ""
  updatedAt : Nat := 0
  deriving DecidableEq, Repr

structure ConnectionStore where
  cipher : Option AEAD := none
  connections : Table Connection.id (· ≠ ·) := Table.empty

inductive StoreError where
  | notFound
  | database
  | encrypting (error : SecretError)
  | opening (id : String) (error : SecretError)
  deriving DecidableEq, Repr

/-- What one write of a password meets. -/
structure Fate where
  rand : Rand
  exec : Bool := true

namespace ConnectionStore

def setSecretCipher (s : ConnectionStore) (aead : AEAD) : ConnectionStore := { s with cipher := some aead }

def row? (s : ConnectionStore) (id : String) : Option Connection := s.connections.lookup id

def openConnSecret (s : ConnectionStore) (c : Connection) : Except StoreError Connection :=
  match s.cipher with
  | none => .ok c
  | some aead =>
    match decrypt aead c.password with
    | .error error => .error (.opening c.id error)
    | .ok plain => .ok { c with password := plain }

def getConnection (s : ConnectionStore) (id : String) : Except StoreError Connection :=
  match s.row? id with
  | none => .error .notFound
  | some c => s.openConnSecret c

/-- `INSERT … ON CONFLICT(id) DO UPDATE`. -/
def put (s : ConnectionStore) (c : Connection) : ConnectionStore := { s with connections := s.connections.put c }

def upsertConnection (s : ConnectionStore) (c : Connection) (now : Nat) (fate : Fate) : Except StoreError ConnectionStore :=
  let sealed : Except SecretError Bytes := match s.cipher with
    | none => .ok c.password
    | some aead => encrypt aead fate.rand c.password
  match sealed with
  | .error error => .error (.encrypting error)
  | .ok password =>
    if fate.exec then .ok (s.put { c with password, updatedAt := now }) else .error .database

/-- `UPDATE connections SET password=? WHERE id=?`. -/
def setPassword (s : ConnectionStore) (id : String) (password : Bytes) : ConnectionStore :=
  { s with connections := s.connections.modify (·.id == id) ({ · with password }) fun _ => rfl }

/-- The loop over the rows that were found; it stops at the first that fails. -/
def sealRows (aead : AEAD) (s : ConnectionStore) (fates : Nat → Fate) : List Connection → ConnectionStore × Option StoreError
  | [] => (s, none)
  | r :: rest =>
    match encrypt aead (fates 0).rand r.password with
    | .error error => (s, some (.encrypting error))
    | .ok sealed =>
      if (fates 0).exec then sealRows aead (s.setPassword r.id sealed) (fun i => fates (i + 1)) rest
      else (s, some .database)

def legacyRows (s : ConnectionStore) : List Connection :=
  s.connections.rows.filter fun r => r.password != [] && !isEncrypted r.password

def migrateConnectionSecrets (s : ConnectionStore) (read : Bool) (fates : Nat → Fate) :
    ConnectionStore × Except StoreError Nat :=
  match s.cipher with
  | none => (s, .ok 0)
  | some aead =>
    if read then
      match s.sealRows aead fates s.legacyRows with
      | (t, none) => (t, .ok s.legacyRows.length)
      | (t, some error) => (t, .error error)
    else (s, .error .database)

variable {s t : ConnectionStore} {id : String} {aead : AEAD}

theorem row?_put (c : Connection) : (s.put c).row? id = if id = c.id then some c else s.row? id := Table.lookup_put

theorem row?_setPassword (name : String) (password : Bytes) :
    (s.setPassword name password).row? id =
      (s.row? id).map fun r => if id = name then { r with password } else r := by
  rw [setPassword, row?, Table.lookup_modify]
  change Option.map _ (s.row? id) = _
  cases found : s.row? id with
  | none => rfl
  | some d =>
    have own : d.id = id := Table.key_of_lookup found
    simp [own]

@[simp] theorem cipher_put (c : Connection) : (s.put c).cipher = s.cipher := rfl

@[simp] theorem cipher_setPassword (password : Bytes) : (s.setPassword id password).cipher = s.cipher := rfl

/-- An upsert that succeeds puts a row whose password is the given one, or its seal. -/
theorem upsertConnection_eq_ok {c : Connection} {now : Nat} {fate : Fate} (done : s.upsertConnection c now fate = .ok t) :
    ∃ password, t = s.put { c with password, updatedAt := now } ∧
      (password = c.password ∧ (∀ aead ∈ s.cipher, c.password = [] ∨ isEncrypted c.password) ∨
        ∃ aead ∈ s.cipher, c.password ≠ [] ∧ isEncrypted c.password = false ∧ aead.SealOf c.password password) := by
  unfold upsertConnection at done
  cases ciphered : s.cipher with
  | none =>
    rw [ciphered] at done
    dsimp only at done
    split at done <;> cases done
    exact ⟨c.password, rfl, .inl ⟨rfl, by simp⟩⟩
  | some aead =>
    rw [ciphered] at done
    dsimp only at done
    split at done
    · cases done
    · rename_i password encrypted
      split at done <;> cases done
      refine ⟨password, rfl, ?_⟩
      rcases encrypt_cases encrypted with ⟨passed, rfl⟩ | ⟨given, clear, sealed⟩
      · exact .inl ⟨rfl, by simpa using passed⟩
      · exact .inr ⟨aead, rfl, given, clear, sealed⟩

@[simp] theorem cipher_sealRows (fates : Nat → Fate) (todo : List Connection) :
    (s.sealRows aead fates todo).1.cipher = s.cipher := by
  induction todo generalizing s fates with
  | nil => rfl
  | cons r rest ih =>
    unfold sealRows
    split
    · rfl
    · split
      · rw [ih, cipher_setPassword]
      · rfl

@[simp] theorem cipher_migrateConnectionSecrets (read : Bool) (fates : Nat → Fate) :
    (s.migrateConnectionSecrets read fates).1.cipher = s.cipher := by
  unfold migrateConnectionSecrets
  cases ciphered : s.cipher with
  | none => exact ciphered
  | some aead =>
    dsimp only
    split
    · have kept := @cipher_sealRows s aead fates s.legacyRows
      split <;> rename_i same <;> rw [same] at kept <;> exact kept.trans ciphered
    · exact ciphered

/-- What holds of a store and survives the sealing of one row holds after the loop, however it ends. -/
theorem sealRows_induction {motive : ConnectionStore → Prop} (todo : List Connection)
    (each : ∀ u, motive u → ∀ r ∈ todo, ∀ rand sealed, encrypt aead rand r.password = .ok sealed →
      motive (u.setPassword r.id sealed)) (fates : Nat → Fate) (start : motive s) :
    motive (s.sealRows aead fates todo).1 := by
  induction todo generalizing s fates with
  | nil => exact start
  | cons r rest ih =>
    unfold sealRows
    split
    · exact start
    · rename_i sealed encrypted
      split
      · exact ih (fun u holds x member => each u holds x (List.mem_cons_of_mem _ member)) _
          (each s start r List.mem_cons_self _ sealed encrypted)
      · exact start

/-- A loop that came to its end sealed every row that it was given. -/
theorem sealRows_finished {fates : Nat → Fate} {todo : List Connection}
    (clear : ∀ r ∈ todo, r.password ≠ [] ∧ isEncrypted r.password = false)
    (finished : (s.sealRows aead fates todo).2 = none) {c : Connection}
    (found : (s.sealRows aead fates todo).1.row? id = some c) :
    isEncrypted c.password = true ∨ id ∉ todo.map (·.id) ∧ s.row? id = some c := by
  induction todo generalizing s fates with
  | nil => exact .inr ⟨by simp, found⟩
  | cons r rest ih =>
    unfold sealRows at finished found
    split at finished
    · cases finished
    rename_i sealed encrypted
    rw [encrypted] at found
    dsimp only at found
    split at finished
    · rename_i executed
      rw [if_pos executed] at found
      obtain ⟨given, plain⟩ := clear r List.mem_cons_self
      rcases ih (fun x member => clear x (List.mem_cons_of_mem _ member)) finished found with done | ⟨other, before⟩
      · exact .inl done
      · rw [row?_setPassword] at before
        obtain ⟨d, own, same⟩ := Option.map_eq_some_iff.mp before
        by_cases mine : id = r.id
        · rw [if_pos mine] at same
          subst same
          rcases encrypt_cases encrypted with ⟨passed, -⟩ | ⟨-, -, seals⟩
          · simp [given, plain] at passed
          · exact .inl seals.isEncrypted
        · rw [if_neg mine] at same
          subst same
          exact .inr ⟨by simpa [mine] using other, own⟩
    · cases finished

theorem legacyRows_clear {r : Connection} (legacy : r ∈ s.legacyRows) :
    r ∈ s.connections ∧ r.password ≠ [] ∧ isEncrypted r.password = false := by
  have member := List.mem_filter.mp legacy
  simpa [Table.mem_def] using member

/-- A migration that succeeds leaves no clear password. -/
theorem migrateConnectionSecrets_closed {read : Bool} {fates : Nat → Fate} {n : Nat} (enabled : s.cipher = some aead)
    (done : (s.migrateConnectionSecrets read fates).2 = .ok n) :
    (s.migrateConnectionSecrets read fates).1.legacyRows = [] := by
  unfold migrateConnectionSecrets at done ⊢
  rw [enabled] at done ⊢
  dsimp only at done ⊢
  cases read with
  | false => cases done
  | true =>
    simp only [if_true] at done ⊢
    split at done
    · rename_i t sealed
      rw [List.eq_nil_iff_forall_not_mem]
      intro c legacy
      obtain ⟨member, given, clear⟩ := legacyRows_clear legacy
      have found : (s.sealRows aead fates s.legacyRows).1.row? c.id = some c := by
        rw [sealed]
        exact Table.lookup_of_mem member
      rcases sealRows_finished (fun r legacy => (legacyRows_clear legacy).2) (by rw [sealed]) found with looks | ⟨other, before⟩
      · simp [clear] at looks
      · have old : c ∈ s.legacyRows := List.mem_filter.mpr ⟨Table.mem_of_lookup before, by simp [given, clear]⟩
        exact other (List.mem_map_of_mem old)
    · cases done

/-- Nothing is left to do where every password is sealed. -/
theorem migrateConnectionSecrets_closed_store (fates : Nat → Fate) (closed : s.legacyRows = []) :
    s.migrateConnectionSecrets true fates = (s, .ok 0) := by
  unfold migrateConnectionSecrets
  cases s.cipher with
  | none => rfl
  | some aead => simp [closed, sealRows]

/-- A migration that succeeded once finds nothing to do. -/
theorem migrateConnectionSecrets_twice {read : Bool} {fates : Nat → Fate} {n : Nat}
    (done : (s.migrateConnectionSecrets read fates).2 = .ok n) (again : Nat → Fate) :
    (s.migrateConnectionSecrets read fates).1.migrateConnectionSecrets true again =
      ((s.migrateConnectionSecrets read fates).1, .ok 0) := by
  cases enabled : s.cipher with
  | none => simp [migrateConnectionSecrets, enabled]
  | some aead => exact migrateConnectionSecrets_closed_store again (migrateConnectionSecrets_closed enabled done)

/-- Sealing what a connection reads as does not change what it reads as. -/
theorem getConnection_setPassword (lawful : aead.Lawful) (enabled : s.cipher = some aead) {name : String} {plain sealed : Bytes}
    (reads : (s.getConnection name).map (·.password) = .ok plain) (seals : aead.SealOf plain sealed) :
    (s.setPassword name sealed).getConnection id = s.getConnection id := by
  unfold getConnection at reads ⊢
  rw [row?_setPassword]
  cases found : s.row? id with
  | none => rfl
  | some c =>
    simp only [Option.map_some]
    by_cases own : id = name
    · subst own
      rw [found] at reads
      simp only [openConnSecret, enabled] at reads
      rw [if_pos rfl]
      simp only [openConnSecret, cipher_setPassword, enabled, decrypt_sealed lawful seals]
      split at reads
      · cases reads
      · rename_i opened
        cases reads
        rfl
    · rw [if_neg own]
      rfl

/-- A migration changes no connection as it is read, also one that fails on its way. -/
theorem getConnection_migrateConnectionSecrets (lawful : ∀ aead ∈ s.cipher, aead.Lawful) (read : Bool) (fates : Nat → Fate) :
    (s.migrateConnectionSecrets read fates).1.getConnection id = s.getConnection id := by
  cases enabled : s.cipher with
  | none => simp [migrateConnectionSecrets, enabled]
  | some aead =>
    have after : ∀ u : ConnectionStore, (u.cipher = some aead ∧ ∀ name, u.getConnection name = s.getConnection name) →
        ∀ r ∈ s.legacyRows, ∀ rand sealed, encrypt aead rand r.password = .ok sealed →
          (u.setPassword r.id sealed).cipher = some aead ∧
            ∀ name, (u.setPassword r.id sealed).getConnection name = s.getConnection name := by
      rintro u ⟨ciphered, same⟩ r legacy rand sealed encrypted
      obtain ⟨member, given, clear⟩ := legacyRows_clear legacy
      have seals : aead.SealOf r.password sealed := by
        rcases encrypt_cases encrypted with ⟨passed, -⟩ | ⟨-, -, seals⟩
        · simp [given, clear] at passed
        · exact seals
      have reads : (u.getConnection r.id).map (·.password) = .ok r.password := by
        rw [same, getConnection, row?, Table.lookup_of_mem member]
        simp only [openConnSecret, enabled, decrypt_clear clear]
        rfl
      refine ⟨ciphered, fun name => ?_⟩
      rw [getConnection_setPassword (lawful aead enabled) ciphered reads seals, same]
    have loop := (sealRows_induction s.legacyRows after fates ⟨enabled, fun _ => rfl⟩).2 id
    unfold migrateConnectionSecrets
    rw [enabled]
    dsimp only
    split
    · split <;> rename_i sealed <;> rw [sealed] at loop <;> exact loop
    · rfl

end ConnectionStore

end Cronova.Secrets
