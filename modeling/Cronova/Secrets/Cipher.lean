import Cronova.Text.Base64

/-! Passwords at rest. The authenticated encryption is a parameter: a key is chosen once, and all that
the cipher relies on is that what was sealed opens to itself and that sealing never shortens.
-/

set_option autoImplicit false

namespace Cronova.Secrets

open Base64 (Bytes)

/-- `cipher.AEAD` under the key that the cipher was built from. -/
structure AEAD where
  nonceSize : Nat
  sealWith : Bytes → Bytes → Bytes
  openWith : Bytes → Bytes → Option Bytes

structure AEAD.Lawful (aead : AEAD) : Prop where
  opens (nonce plain : Bytes) : nonce.length = aead.nonceSize → aead.openWith nonce (aead.sealWith nonce plain) = some plain
  grows (nonce sealed plain : Bytes) : aead.openWith nonce sealed = some plain → plain.length ≤ sealed.length

/-- `rand.Read` fills a whole buffer or fails. -/
abbrev Rand := (n : Nat) → Option { bytes : Bytes // bytes.length = n }

inductive SecretError where
  | entropy | decode | tooShort | opening
  deriving DecidableEq, Repr

/-- What is put before the message of the library. -/
def SecretError.text : SecretError → String
  | .entropy => ""
  | .decode => "decode sealed secret: "
  | .tooShort => "sealed secret too short"
  | .opening => "open sealed secret (wrong key file?): "

/-- `enc:v1:`. -/
def sealPrefix : Bytes := [101, 110, 99, 58, 118, 49, 58]

def isEncrypted (s : Bytes) : Bool := sealPrefix.isPrefixOf s

def AEAD.sealed (aead : AEAD) (nonce plain : Bytes) : Bytes :=
  sealPrefix ++ Base64.encode (nonce ++ aead.sealWith nonce plain)

/-- The nonce is the buffer that `Seal` appends to. -/
def encrypt (aead : AEAD) (rand : Rand) (plain : Bytes) : Except SecretError Bytes :=
  if plain = [] ∨ isEncrypted plain then .ok plain
  else match rand aead.nonceSize with
    | none => .error .entropy
    | some nonce => .ok (aead.sealed nonce plain)

def decrypt (aead : AEAD) (stored : Bytes) : Except SecretError Bytes :=
  if !isEncrypted stored then .ok stored
  else match Base64.decode (stored.drop sealPrefix.length) with
    | none => .error .decode
    | some raw =>
      if raw.length < aead.nonceSize then .error .tooShort
      else match aead.openWith (raw.take aead.nonceSize) (raw.drop aead.nonceSize) with
        | none => .error .opening
        | some plain => .ok plain

/-- The stored value is the seal of the password. -/
def AEAD.SealOf (aead : AEAD) (plain stored : Bytes) : Prop :=
  ∃ nonce, nonce.length = aead.nonceSize ∧ stored = aead.sealed nonce plain

variable {aead : AEAD} {rand : Rand} {plain stored : Bytes}

theorem isEncrypted_sealed (nonce : Bytes) : isEncrypted (aead.sealed nonce plain) = true := by
  rw [isEncrypted, AEAD.sealed, List.isPrefixOf_iff_prefix]
  exact List.prefix_append _ _

theorem AEAD.SealOf.isEncrypted (sealed : aead.SealOf plain stored) : isEncrypted stored = true := by
  obtain ⟨nonce, -, rfl⟩ := sealed
  exact isEncrypted_sealed nonce

theorem AEAD.SealOf.ne_nil (sealed : aead.SealOf plain stored) : stored ≠ [] := by
  rintro rfl
  exact absurd sealed.isEncrypted (by decide)

/-- What encrypting can return. -/
theorem encrypt_cases (encrypted : encrypt aead rand plain = .ok stored) :
    (plain = [] ∨ isEncrypted plain = true) ∧ stored = plain ∨
      plain ≠ [] ∧ isEncrypted plain = false ∧ aead.SealOf plain stored := by
  unfold encrypt at encrypted
  split at encrypted
  · rename_i passed
    cases encrypted
    exact .inl ⟨passed, rfl⟩
  · rename_i clear
    rw [not_or, Bool.not_eq_true] at clear
    split at encrypted
    · cases encrypted
    · rename_i nonce drawn
      cases encrypted
      exact .inr ⟨clear.1, clear.2, nonce, nonce.2, rfl⟩

theorem decrypt_clear (clear : isEncrypted stored = false) : decrypt aead stored = .ok stored := by
  simp [decrypt, clear]

/-- A sealed password opens to itself. -/
theorem decrypt_sealed (lawful : aead.Lawful) (sealed : aead.SealOf plain stored) :
    decrypt aead stored = .ok plain := by
  obtain ⟨nonce, size, rfl⟩ := sealed
  have raw : Base64.decode ((aead.sealed nonce plain).drop sealPrefix.length) = some (nonce ++ aead.sealWith nonce plain) := by
    rw [AEAD.sealed, List.drop_left, Base64.decode_encode]
  have long : ¬ (nonce ++ aead.sealWith nonce plain).length < aead.nonceSize := by
    rw [List.length_append, size]
    omega
  have front : (nonce ++ aead.sealWith nonce plain).take aead.nonceSize = nonce := by rw [← size, List.take_left]
  have back : (nonce ++ aead.sealWith nonce plain).drop aead.nonceSize = aead.sealWith nonce plain := by
    rw [← size, List.drop_left]
  unfold decrypt
  rw [isEncrypted_sealed nonce, raw]
  simp only [Bool.not_true, Bool.false_eq_true, if_false, if_neg long, front, back, lawful.opens nonce plain size]

/-- What looks sealed never opens to itself, since opening shortens. -/
theorem decrypt_shorter (lawful : aead.Lawful) (looks : isEncrypted stored = true)
    (opened : decrypt aead stored = .ok plain) : plain.length < stored.length := by
  unfold decrypt at opened
  rw [looks] at opened
  simp only [Bool.not_true, Bool.false_eq_true, if_false] at opened
  split at opened
  · cases opened
  rename_i raw decoded
  split at opened
  · cases opened
  split at opened
  · cases opened
  rename_i inner unsealed
  cases opened
  have front : sealPrefix.length ≤ stored.length :=
    (List.isPrefixOf_iff_prefix.mp looks).length_le
  have shrinks := lawful.grows _ _ _ unsealed
  have body := Base64.decode_length decoded
  rw [List.length_drop] at shrinks body
  have seven : sealPrefix.length = 7 := rfl
  omega

end Cronova.Secrets
