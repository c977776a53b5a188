import Mathlib.Data.List.Basic

/-! The standard base64 alphabet with padding: what is encoded decodes to itself, and no text decodes
to more bytes than it has. -/

set_option autoImplicit false

namespace Cronova.Base64

abbrev Bytes := List UInt8

def pad : UInt8 := 61

/-- The letter of a six-bit value: `A-Z`, `a-z`, `0-9`, `+`, `/`. -/
def letter (v : Nat) : UInt8 :=
  if v < 26 then .ofNat (65 + v)
  else if v < 52 then .ofNat (71 + v)
  else if v < 62 then .ofNat (v - 4)
  else if v = 62 then 43
  else 47

def value (c : UInt8) : Option Nat :=
  if 65 ≤ c ∧ c ≤ 90 then some (c.toNat - 65)
  else if 97 ≤ c ∧ c ≤ 122 then some (c.toNat - 71)
  else if 48 ≤ c ∧ c ≤ 57 then some (c.toNat + 4)
  else if c = 43 then some 62
  else if c = 47 then some 63
  else none

theorem value_letter : ∀ v < 64, value (letter v) = some v := by decide

theorem letter_ne_pad : ∀ v < 64, letter v ≠ pad := by decide

/-- Line ends, which a decoder skips wherever they stand. -/
def isNewline (c : UInt8) : Bool := c == 10 || c == 13

theorem letter_newline : ∀ v < 64, isNewline (letter v) = false := by decide

/-- `EncodeToString`: three bytes are four letters, and a shorter rest is padded. -/
def encode : Bytes → Bytes
  | [] => []
  | [a] => [letter (a.toNat / 4), letter (a.toNat % 4 * 16), pad, pad]
  | [a, b] =>
    [letter (a.toNat / 4), letter (a.toNat % 4 * 16 + b.toNat / 16), letter (b.toNat % 16 * 4), pad]
  | a :: b :: c :: rest =>
    letter (a.toNat / 4) :: letter (a.toNat % 4 * 16 + b.toNat / 16) ::
      letter (b.toNat % 16 * 4 + c.toNat / 64) :: letter (c.toNat % 64) :: encode rest

/-- Letters without line ends. Padding ends the text; the bits that it leaves over are not looked at. -/
def decodeQuanta : Bytes → Option Bytes
  | [] => some []
  | c₀ :: c₁ :: c₂ :: c₃ :: rest => do
    let v₀ ← value c₀
    let v₁ ← value c₁
    if c₂ = pad then
      if c₃ = pad ∧ rest = [] then return [.ofNat (v₀ * 4 + v₁ / 16)] else none
    else
      let v₂ ← value c₂
      if c₃ = pad then
        if rest = [] then return [.ofNat (v₀ * 4 + v₁ / 16), .ofNat (v₁ % 16 * 16 + v₂ / 4)] else none
      else
        let v₃ ← value c₃
        let tail ← decodeQuanta rest
        return .ofNat (v₀ * 4 + v₁ / 16) :: .ofNat (v₁ % 16 * 16 + v₂ / 4) :: .ofNat (v₂ % 4 * 64 + v₃) :: tail
  | _ => none

/-- `DecodeString`. -/
def decode (text : Bytes) : Option Bytes := decodeQuanta (text.filter (!isNewline ·))

theorem encode_newline (bytes : Bytes) : ∀ c ∈ encode bytes, isNewline c = false := by
  have padding : isNewline pad = false := by decide
  fun_induction encode bytes with
  | case1 => simp
  | case2 a =>
    have first := letter_newline (a.toNat / 4) (by have := a.toNat_lt; omega)
    have second := letter_newline (a.toNat % 4 * 16) (by omega)
    simp [first, second, padding]
  | case3 a b =>
    have first := letter_newline (a.toNat / 4) (by have := a.toNat_lt; omega)
    have second := letter_newline (a.toNat % 4 * 16 + b.toNat / 16) (by have := b.toNat_lt; omega)
    have third := letter_newline (b.toNat % 16 * 4) (by omega)
    simp [first, second, third, padding]
  | case4 a b c rest ih =>
    have first := letter_newline (a.toNat / 4) (by have := a.toNat_lt; omega)
    have second := letter_newline (a.toNat % 4 * 16 + b.toNat / 16) (by have := b.toNat_lt; omega)
    have third := letter_newline (b.toNat % 16 * 4 + c.toNat / 64) (by have := c.toNat_lt; omega)
    have fourth := letter_newline (c.toNat % 64) (by omega)
    simpa [first, second, third, fourth] using ih

/-- A byte is put together again from its upper and its lower bits. -/
theorem ofNat_join {a : UInt8} {n : Nat} (same : n = a.toNat) : UInt8.ofNat n = a := by
  rw [same, UInt8.ofNat_toNat]

theorem decodeQuanta_encode (bytes : Bytes) : decodeQuanta (encode bytes) = some bytes := by
  fun_induction encode bytes with
  | case1 => rfl
  | case2 a =>
    have low := a.toNat_lt
    have first := value_letter (a.toNat / 4) (by omega)
    have second := value_letter (a.toNat % 4 * 16) (by omega)
    simp only [decodeQuanta, first, second, Option.bind_eq_bind, Option.bind_some, if_true, and_self]
    rw [ofNat_join (a := a) (by omega)]
    rfl
  | case3 a b =>
    have low := a.toNat_lt
    have high := b.toNat_lt
    have first := value_letter (a.toNat / 4) (by omega)
    have second := value_letter (a.toNat % 4 * 16 + b.toNat / 16) (by omega)
    have third := value_letter (b.toNat % 16 * 4) (by omega)
    have plain := letter_ne_pad (b.toNat % 16 * 4) (by omega)
    simp only [decodeQuanta, first, second, third, if_neg plain, Option.bind_eq_bind, Option.bind_some, if_true]
    rw [ofNat_join (a := a) (by omega), ofNat_join (a := b) (by omega)]
    rfl
  | case4 a b c rest ih =>
    have low := a.toNat_lt
    have middle := b.toNat_lt
    have high := c.toNat_lt
    have first := value_letter (a.toNat / 4) (by omega)
    have second := value_letter (a.toNat % 4 * 16 + b.toNat / 16) (by omega)
    have third := value_letter (b.toNat % 16 * 4 + c.toNat / 64) (by omega)
    have fourth := value_letter (c.toNat % 64) (by omega)
    have plain := letter_ne_pad (b.toNat % 16 * 4 + c.toNat / 64) (by omega)
    have last := letter_ne_pad (c.toNat % 64) (by omega)
    simp only [decodeQuanta, first, second, third, fourth, if_neg plain, if_neg last, ih, Option.bind_eq_bind,
      Option.bind_some]
    rw [ofNat_join (a := a) (by omega), ofNat_join (a := b) (by omega), ofNat_join (a := c) (by omega)]
    rfl

/-- Decoding undoes encoding. -/
theorem decode_encode (bytes : Bytes) : decode (encode bytes) = some bytes := by
  have all : (encode bytes).filter (!isNewline ·) = encode bytes := by
    rw [List.filter_eq_self]
    intro c member
    simp [encode_newline bytes c member]
  rw [decode, all, decodeQuanta_encode]

theorem decodeQuanta_length {text bytes : Bytes} (decoded : decodeQuanta text = some bytes) :
    bytes.length ≤ text.length := by
  fun_induction decodeQuanta text generalizing bytes with
  | case1 => cases decoded; simp
  | case2 c₀ c₁ c₂ c₃ rest ih =>
    simp only [Option.bind_eq_bind, Option.bind_eq_some_iff] at decoded
    obtain ⟨v₀, -, v₁, -, decoded⟩ := decoded
    split at decoded
    · split at decoded <;> cases decoded
      simp
    · obtain ⟨v₂, -, decoded⟩ := Option.bind_eq_some_iff.mp decoded
      split at decoded
      · split at decoded <;> cases decoded
        simp
      · obtain ⟨v₃, -, decoded⟩ := Option.bind_eq_some_iff.mp decoded
        obtain ⟨tail, below, decoded⟩ := Option.bind_eq_some_iff.mp decoded
        cases decoded
        have := ih below
        simp only [List.length_cons]
        omega
  | case3 => cases decoded

/-- A text is at least as long as what it encodes. -/
theorem decode_length {text bytes : Bytes} (decoded : decode text = some bytes) : bytes.length ≤ text.length :=
  Nat.le_trans (decodeQuanta_length decoded) (List.length_filter_le _ _)

end Cronova.Base64
