import Cronova.Secrets.Connections
import Mathlib.Data.Option.Basic
import Mathlib.Logic.Function.Basic

/-! Histories of a store whose encryption is enabled at some time, and the passwords that come back.
A password that looks sealed is stored as it is, and an enabled cipher then opens what nobody sealed.
-/

set_option autoImplicit false

namespace Cronova.Secrets

open Base64 (Bytes)

/-! ### Saving through the API -/

/-- `^[A-Za-z0-9_.-]+$`. -/
def cfgKey (id : String) : Bool :=
  !id.isEmpty && id.toList.all fun c =>
    ('A' ≤ c && c ≤ 'Z') || ('a' ≤ c && c ≤ 'z') || ('0' ≤ c && c ≤ '9') || c == '_' || c == '.' || c == '-'

structure ConnectionRequest where
  type : String := ""
  host : String := ""
  port : Int := 0
  login : String := ""
  password : Bytes := []
  extra : String := ""

inductive SetResponse where
  | badRequest (text : String)
  | failed (error : StoreError)
  | saved (c : Connection) (hasPassword : Bool)

/-- A blank password keeps that of an existing connection. `validJSON` is `json.Valid`. -/
def setConnection (validJSON : String → Bool) (s : ConnectionStore) (id : String) (req : ConnectionRequest) (now : Nat)
    (fate : Fate) : ConnectionStore × SetResponse :=
  if !cfgKey id then (s, .badRequest "invalid connection id")
  else if req.extra ≠ "" ∧ !validJSON req.extra then (s, .badRequest "extra must be valid JSON")
  else
    let c : Connection :=
      { id, type := req.type, host := req.host, port := req.port, login := req.login, password := req.password, extra := req.extra }
    let kept : Except StoreError Connection :=
      if req.password = [] then
        match s.getConnection id with
        | .ok existing => .ok { c with password := existing.password }
        | .error .notFound => .ok c
        | .error error => .error error
      else .ok c
    match kept with
    | .error error => (s, .failed error)
    | .ok c =>
      match s.upsertConnection c now fate with
      | .error error => (s, .failed error)
      | .ok t => (t, .saved c (c.password != []))

/-- Saving with a blank password keeps the password that the connection reads as. -/
theorem setConnection_blank {validJSON : String → Bool} {s : ConnectionStore} {id : String} {req : ConnectionRequest} {now : Nat}
    {fate : Fate} {d : Connection} (lawful : ∀ aead ∈ s.cipher, aead.Lawful) (blank : req.password = [])
    (reads : s.getConnection id = .ok d) (clear : isEncrypted d.password = false) :
    ((setConnection validJSON s id req now fate).1.getConnection id).map (·.password) = .ok d.password := by
  have before : (s.getConnection id).map (·.password) = .ok d.password := by rw [reads]; rfl
  unfold setConnection
  split
  · exact before
  split
  · exact before
  simp only [reads]
  split
  · exact before
  rename_i t done
  obtain ⟨password, rfl, how⟩ := ConnectionStore.upsertConnection_eq_ok done
  simp only [ConnectionStore.getConnection, ConnectionStore.row?_put, if_true, ConnectionStore.openConnSecret,
    ConnectionStore.cipher_put]
  cases ciphered : s.cipher with
  | none =>
    rcases how with ⟨rfl, -⟩ | ⟨aead, on, -⟩
    · rfl
    · rw [ciphered] at on
      cases on
  | some aead =>
    rcases how with ⟨rfl, -⟩ | ⟨a, on, -, -, seals⟩
    · simp only [decrypt_clear clear]
      rfl
    · rw [ciphered] at on
      cases on
      simp only [decrypt_sealed (lawful aead ciphered) seals]
      rfl

/-! ### Histories -/

inductive Call where
  | upsertConnection (c : Connection) (now : Nat) (fate : Fate)
  | migrateConnectionSecrets (read : Bool) (fates : Nat → Fate)
  | setSecretCipher

/-- The store with what its callers know: the password that was stored last for each id, and whether
a migration went through after the encryption was enabled. -/
structure Ledger where
  store : ConnectionStore := {}
  stored : String → Option Bytes := fun _ => none
  migrated : Bool := false

def Ledger.step (aead : AEAD) (l : Ledger) : Call → Ledger
  | .upsertConnection c now fate =>
    match l.store.upsertConnection c now fate with
    | .ok store => { l with store, stored := Function.update l.stored c.id (some c.password) }
    | .error _ => l
  | .migrateConnectionSecrets read fates =>
    match l.store.migrateConnectionSecrets read fates with
    | (store, .ok _) => { l with store, migrated := l.migrated || store.cipher.isSome }
    | (store, .error _) => { l with store }
  | .setSecretCipher => { l with store := l.store.setSecretCipher aead }

def history (aead : AEAD) (calls : List Call) : Ledger := calls.foldl (Ledger.step aead) {}

structure RoundTrips (aead : AEAD) (l : Ledger) : Prop where
  reads : ∀ id p, l.stored id = some p → (l.store.getConnection id).map (·.password) = .ok p
  transparent : ∀ read fates id, (l.store.migrateConnectionSecrets read fates).1.getConnection id = l.store.getConnection id
  idempotent : ∀ read fates n, (l.store.migrateConnectionSecrets read fates).2 = .ok n → ∀ again,
    (l.store.migrateConnectionSecrets read fates).1.migrateConnectionSecrets true again =
      ((l.store.migrateConnectionSecrets read fates).1, .ok 0)
  hidden : l.migrated = true → ∀ id p, l.stored id = some p → p ≠ [] →
    ∃ c, l.store.row? id = some c ∧ aead.SealOf p c.password

/-- No password that was stored last looks sealed, or nothing looks at them. -/
def Unmistakable (l : Ledger) : Prop :=
  l.store.cipher = none ∨ ∀ id p, l.stored id = some p → isEncrypted p = false

/-! ### What a column holds -/

/-- The column holds the password or, where a cipher could have sealed it, its seal. -/
def Bears (aead : AEAD) (enabled : Bool) (p column : Bytes) : Prop :=
  column = p ∨ enabled = true ∧ p ≠ [] ∧ isEncrypted p = false ∧ aead.SealOf p column

structure Ledger.Sound (aead : AEAD) (l : Ledger) : Prop where
  cipher : l.store.cipher = none ∨ l.store.cipher = some aead
  rows : ∀ id, Option.Rel (fun p (c : Connection) => Bears aead l.store.cipher.isSome p c.password) (l.stored id) (l.store.row? id)
  closed : l.migrated = true → l.store.cipher = some aead ∧ l.store.legacyRows = []

variable {aead : AEAD} {l : Ledger}

theorem Bears.enable {enabled : Bool} {p column : Bytes} (bears : Bears aead enabled p column) : Bears aead true p column :=
  bears.imp_right fun ⟨_, rest⟩ => ⟨rfl, rest⟩

theorem legacyRows_eq_nil {s : ConnectionStore} :
    s.legacyRows = [] ↔ ∀ id c, s.row? id = some c → c.password = [] ∨ isEncrypted c.password = true := by
  rw [ConnectionStore.legacyRows, List.filter_eq_nil_iff]
  constructor
  · intro none id c found
    have passed := none c (Table.mem_of_lookup found)
    by_cases empty : c.password = []
    · exact .inl empty
    · exact .inr (by simpa [empty] using passed)
  · intro closed c member
    rcases closed c.id c (Table.lookup_of_mem member) with empty | looks
    · simp [empty]
    · simp [looks]

theorem Ledger.Sound.upsert (sound : l.Sound aead) (c : Connection) (now : Nat) (fate : Fate) :
    (l.step aead (.upsertConnection c now fate)).Sound aead := by
  simp only [Ledger.step]
  split
  · rename_i store done
    obtain ⟨password, rfl, how⟩ := ConnectionStore.upsertConnection_eq_ok done
    refine ⟨by simpa using sound.cipher, fun id => ?_, fun migrated => ?_⟩
    · rw [ConnectionStore.row?_put, ConnectionStore.cipher_put]
      dsimp only
      by_cases own : id = c.id
      · subst own
        rw [if_pos rfl, Function.update_self]
        refine .some ?_
        rcases how with ⟨same, -⟩ | ⟨a, ciphered, given, clear, seals⟩
        · exact .inl same
        · rcases sound.cipher with off | on
          · rw [off] at ciphered
            cases ciphered
          · rw [on] at ciphered
            cases ciphered
            exact .inr ⟨by rw [on]; rfl, given, clear, seals⟩
      · rw [if_neg own, Function.update_of_ne own]
        exact sound.rows id
    · obtain ⟨on, closed⟩ := sound.closed migrated
      refine ⟨by simpa using on, legacyRows_eq_nil.mpr fun id d found => ?_⟩
      rw [ConnectionStore.row?_put] at found
      split at found
      · cases found
        rcases how with ⟨same, passed⟩ | ⟨a, -, -, -, seals⟩
        · rw [same]
          exact passed aead on
        · exact .inr seals.isEncrypted
      · exact legacyRows_eq_nil.mp closed id d found
  · exact sound

/-- A clear password is the one that was stored last. -/
theorem Ledger.Sound.stored_of_legacy (sound : l.Sound aead) {r : Connection} (legacy : r ∈ l.store.legacyRows) :
    l.stored r.id = some r.password := by
  obtain ⟨member, -, clear⟩ := ConnectionStore.legacyRows_clear legacy
  have related := sound.rows r.id
  rw [ConnectionStore.row?, Table.lookup_of_mem member] at related
  cases stored : l.stored r.id with
  | none =>
    rw [stored] at related
    cases related
  | some p =>
    rw [stored] at related
    cases related with
    | some bears =>
      rcases bears with same | ⟨-, -, -, seals⟩
      · rw [same]
      · simp [seals.isEncrypted] at clear

/-- A migration seals what is in clear with the password that was stored last. -/
theorem Ledger.Sound.migrated_rows (sound : l.Sound aead) (read : Bool) (fates : Nat → Fate) (id : String) :
    Option.Rel (fun p (c : Connection) => Bears aead l.store.cipher.isSome p c.password) (l.stored id)
      ((l.store.migrateConnectionSecrets read fates).1.row? id) := by
  rcases sound.cipher with off | on
  · simpa [ConnectionStore.migrateConnectionSecrets, off] using sound.rows id
  have each : ∀ u : ConnectionStore,
      (∀ id, Option.Rel (fun p (c : Connection) => Bears aead l.store.cipher.isSome p c.password) (l.stored id) (u.row? id)) →
      ∀ r ∈ l.store.legacyRows, ∀ rand sealed, encrypt aead rand r.password = .ok sealed →
        ∀ id, Option.Rel (fun p (c : Connection) => Bears aead l.store.cipher.isSome p c.password) (l.stored id)
          ((u.setPassword r.id sealed).row? id) := by
    intro u holds r legacy rand sealed encrypted id
    obtain ⟨-, given, clear⟩ := ConnectionStore.legacyRows_clear legacy
    have seals : aead.SealOf r.password sealed := by
      rcases encrypt_cases encrypted with ⟨passed, -⟩ | ⟨-, -, seals⟩
      · simp [given, clear] at passed
      · exact seals
    have related := holds id
    rw [ConnectionStore.row?_setPassword]
    by_cases own : id = r.id
    · subst own
      rw [sound.stored_of_legacy legacy] at related ⊢
      cases found : u.row? r.id with
      | none =>
        rw [found] at related
        cases related
      | some c =>
        simp only [Option.map_some, if_true]
        exact .some (.inr ⟨by rw [on]; rfl, given, clear, seals⟩)
    · simpa [own] using related
  have loop := @ConnectionStore.sealRows_induction _ aead _ l.store.legacyRows each fates sound.rows id
  unfold ConnectionStore.migrateConnectionSecrets
  cases ciphered : l.store.cipher with
  | none =>
    rw [on] at ciphered
    cases ciphered
  | some a =>
    rw [on] at ciphered
    cases ciphered
    rw [on] at loop
    dsimp only
    split
    · split <;> rename_i sealed <;> rw [sealed] at loop <;> exact loop
    · have row := sound.rows id
      rwa [on] at row

theorem Ledger.Sound.migrated_closed (sound : l.Sound aead) (read : Bool) (fates : Nat → Fate) (migrated : l.migrated = true) :
    (l.store.migrateConnectionSecrets read fates).1.legacyRows = [] := by
  obtain ⟨on, empty⟩ := sound.closed migrated
  cases read with
  | true =>
    rw [ConnectionStore.migrateConnectionSecrets_closed_store fates empty]
    exact empty
  | false => simpa [ConnectionStore.migrateConnectionSecrets, on] using empty

theorem Ledger.Sound.migrate (sound : l.Sound aead) (read : Bool) (fates : Nat → Fate) :
    (l.step aead (.migrateConnectionSecrets read fates)).Sound aead := by
  have cipher := ConnectionStore.cipher_migrateConnectionSecrets (s := l.store) read fates
  have rows := sound.migrated_rows read fates
  have closed := sound.migrated_closed read fates
  have success (n : Nat) := fun on => @ConnectionStore.migrateConnectionSecrets_closed l.store aead read fates n on
  simp only [Ledger.step]
  generalize l.store.migrateConnectionSecrets read fates = after at cipher rows closed success
  obtain ⟨store, outcome⟩ := after
  dsimp only at cipher rows closed success
  rw [← cipher] at rows
  cases outcome with
  | ok n =>
    refine ⟨cipher ▸ sound.cipher, rows, fun migrated => ?_⟩
    dsimp only at migrated ⊢
    rcases sound.cipher with off | on
    · have before : l.migrated = true := by simpa [cipher, off] using migrated
      exact ⟨cipher.trans (sound.closed before).1, closed before⟩
    · exact ⟨cipher.trans on, success n on rfl⟩
  | error error => exact ⟨cipher ▸ sound.cipher, rows, fun migrated => ⟨cipher.trans (sound.closed migrated).1, closed migrated⟩⟩

theorem Ledger.Sound.enable (sound : l.Sound aead) : (l.step aead .setSecretCipher).Sound aead where
  cipher := .inr rfl
  rows id := by
    have related := sound.rows id
    change Option.Rel _ (l.stored id) (l.store.row? id)
    cases stored : l.stored id <;> cases found : l.store.row? id <;> rw [stored, found] at related <;> cases related
    · exact .none
    · rename_i bears
      exact .some bears.enable
  closed migrated := ⟨rfl, (sound.closed migrated).2⟩

theorem Ledger.Sound.step (sound : l.Sound aead) (call : Call) : (l.step aead call).Sound aead := by
  cases call with
  | upsertConnection c now fate => exact sound.upsert c now fate
  | migrateConnectionSecrets read fates => exact sound.migrate read fates
  | setSecretCipher => exact sound.enable

theorem sound_history (calls : List Call) : (history aead calls).Sound aead := by
  have start : Ledger.Sound aead {} := ⟨.inl rfl, fun _ => .none, nofun⟩
  have run : ∀ (calls : List Call) (l : Ledger), l.Sound aead → (calls.foldl (Ledger.step aead) l).Sound aead := by
    intro calls
    induction calls with
    | nil => exact fun _ sound => sound
    | cons call rest ih => exact fun l sound => ih _ (sound.step call)
  exact run calls {} start

/-- The row of an id whose password was stored. -/
theorem Ledger.Sound.row (sound : l.Sound aead) {id : String} {p : Bytes} (stored : l.stored id = some p) :
    ∃ c, l.store.row? id = some c ∧ Bears aead l.store.cipher.isSome p c.password := by
  have related := sound.rows id
  rw [stored] at related
  cases found : l.store.row? id with
  | none =>
    rw [found] at related
    cases related
  | some c =>
    rw [found] at related
    cases related with
    | some bears => exact ⟨c, rfl, bears⟩

/-- In every history, every password comes back, migrations neither show nor repeat and leave nothing
in clear, exactly when an enabled cipher never meets a password that looks sealed. -/
theorem roundTrips_iff (lawful : aead.Lawful) (calls : List Call) :
    RoundTrips aead (history aead calls) ↔ Unmistakable (history aead calls) := by
  have sound := @sound_history aead calls
  generalize history aead calls = l at sound ⊢
  constructor
  · intro trips
    rcases sound.cipher with off | on
    · exact .inl off
    · refine .inr fun id p stored => ?_
      by_contra looks
      rw [Bool.not_eq_false] at looks
      obtain ⟨c, found, bears⟩ := sound.row stored
      have same : c.password = p := by
        rcases bears with same | ⟨-, -, clear, -⟩
        · exact same
        · simp [looks] at clear
      have reads := trips.reads id p stored
      simp only [ConnectionStore.getConnection, found, ConnectionStore.openConnSecret, on, same] at reads
      split at reads
      · cases reads
      · rename_i plain opened
        cases reads
        exact absurd (decrypt_shorter lawful looks opened) (Nat.lt_irrefl _)
  · intro unmistakable
    refine ⟨fun id p stored => ?_, fun read fates id => ?_, fun read fates n done again => ?_, fun migrated id p stored given => ?_⟩
    · obtain ⟨c, found, bears⟩ := sound.row stored
      simp only [ConnectionStore.getConnection, found, ConnectionStore.openConnSecret]
      rcases sound.cipher with off | on
      · rw [off] at bears ⊢
        rcases bears with same | ⟨enabled, -⟩
        · exact congrArg Except.ok same
        · cases enabled
      · have clear : isEncrypted p = false := by
          rcases unmistakable with off | clear
          · rw [on] at off
            cases off
          · exact clear id p stored
        rw [on]
        rcases bears with same | ⟨-, -, -, seals⟩
        · rw [same]
          simp only [decrypt_clear clear]
          rfl
        · simp only [decrypt_sealed lawful seals]
          rfl
    · apply ConnectionStore.getConnection_migrateConnectionSecrets
      intro a ciphered
      rcases sound.cipher with off | on
      · rw [off] at ciphered
        cases ciphered
      · rw [on] at ciphered
        cases ciphered
        exact lawful
    · exact ConnectionStore.migrateConnectionSecrets_twice done again
    · obtain ⟨on, closed⟩ := sound.closed migrated
      obtain ⟨c, found, bears⟩ := sound.row stored
      refine ⟨c, found, ?_⟩
      rcases bears with same | ⟨-, -, -, seals⟩
      · rcases unmistakable with off | clear
        · rw [on] at off
          cases off
        · rcases legacyRows_eq_nil.mp closed id c found with empty | looks
          · exact absurd (same.symm.trans empty) given
          · rw [same, clear id p stored] at looks
            cases looks
      · exact seals

/-! ### One password -/

/-- The masks and the tag of AES-256-GCM for the password and the nonce below, under the key
`0123456789abcdef0123456789abcdef`. -/
def sampleMask : Bytes := [45, 229, 187, 124, 217, 24, 210, 172, 168, 220]

def sampleTag : Bytes := [209, 120, 222, 12, 126, 154, 209, 40, 220, 177, 29, 234, 115, 101, 67, 170]

def masked (bytes : Bytes) : Bytes := bytes.mapIdx fun i b => b ^^^ sampleMask.getD i 0

/-- A cipher that seals the sample as the real one does. -/
def sampleAEAD : AEAD where
  nonceSize := 12
  sealWith _ plain := masked plain ++ sampleTag
  openWith _ sealed :=
    if sealed.drop (sealed.length - 16) = sampleTag then some (masked (sealed.take (sealed.length - 16))) else none

theorem masked_masked (bytes : Bytes) : masked (masked bytes) = bytes := by
  unfold masked
  rw [List.mapIdx_mapIdx]
  apply List.ext_getElem (by simp)
  intro i _ _
  simp [UInt8.xor_assoc]

theorem sampleAEAD_lawful : sampleAEAD.Lawful where
  opens nonce plain _ := by
    have size : (masked plain ++ sampleTag).length - 16 = (masked plain).length := by
      rw [List.length_append]
      exact Nat.add_sub_cancel _ _
    simp only [sampleAEAD, size, List.drop_left, List.take_left, masked_masked, if_true]
  grows nonce sealed plain opened := by
    simp only [sampleAEAD] at opened
    split at opened <;> cases opened
    simp [masked]

/-- `top-secret`. -/
def samplePassword : Bytes := [116, 111, 112, 45, 115, 101, 99, 114, 101, 116]

def sampleFate : Fate := { rand := fun n => some ⟨(List.range n).map .ofNat, by simp⟩ }

/-- The password is stored in clear, the encryption is enabled, and a migration seals it. -/
def sampleCalls : List Call :=
  [.upsertConnection { id := "legacy", password := samplePassword } 0 sampleFate, .setSecretCipher,
    .migrateConnectionSecrets true fun _ => sampleFate]

theorem roundTrips_sample :
    ((history sampleAEAD sampleCalls).store.row? "legacy").map (·.password) =
      some ("enc:v1:AAECAwQFBgcICQoLWYrLUap9sd7NqNF43gx+mtEo3LEd6nNlQ6o=".toList.map fun c => .ofNat c.toNat) ∧
      RoundTrips sampleAEAD (history sampleAEAD sampleCalls) := by
  refine ⟨by decide +kernel, (roundTrips_iff sampleAEAD_lawful sampleCalls).mpr (.inr fun id p stored => ?_)⟩
  have known : (history sampleAEAD sampleCalls).stored = Function.update (fun _ => none) "legacy" (some samplePassword) := rfl
  rw [known] at stored
  by_cases own : id = "legacy"
  · rw [own, Function.update_self] at stored
    cases stored
    decide
  · rw [Function.update_of_ne own] at stored
    cases stored

/-- `enc:v1:2024`. -/
def lookalike : Bytes := sealPrefix ++ [50, 48, 50, 52]

/-- A password that looks sealed is stored under an enabled cipher and cannot be read again. -/
theorem not_always_roundTrips : ¬ ∀ aead : AEAD, aead.Lawful → ∀ calls, RoundTrips aead (history aead calls) := by
  intro always
  have trips := always sampleAEAD sampleAEAD_lawful
    [.setSecretCipher, .upsertConnection { id := "warehouse", password := lookalike } 0 sampleFate]
  have reads := trips.reads "warehouse" lookalike (by decide +kernel)
  exact absurd reads (by decide +kernel)

end Cronova.Secrets
