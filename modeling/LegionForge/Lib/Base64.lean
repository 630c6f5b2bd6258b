import Mathlib.Tactic.Common

/-!
# Base64 in the alphabet that is safe in URLs

The encoder takes three bytes to four digits and pads the last group. The decoder is the
lenient one: a character outside the alphabet is passed over, the digits of the other
alphabet are read too, and the padding that completes a group ends the text. What was
encoded comes back (`decode_encode`).
-/

namespace Base64

/-- The digit of six bits. -/
def digit (n : Nat) : Char :=
  if n < 26 then Char.ofNat (n + 65)
  else if n < 52 then Char.ofNat (n + 71)
  else if n < 62 then Char.ofNat (n - 4)
  else if n = 62 then '-'
  else '_'

/-- The six bits of a digit, in either alphabet. -/
def value (c : Char) : Option Nat :=
  if 65 ≤ c.toNat ∧ c.toNat ≤ 90 then some (c.toNat - 65)
  else if 97 ≤ c.toNat ∧ c.toNat ≤ 122 then some (c.toNat - 71)
  else if 48 ≤ c.toNat ∧ c.toNat ≤ 57 then some (c.toNat + 4)
  else if c = '-' ∨ c = '+' then some 62
  else if c = '_' ∨ c = '/' then some 63
  else none

def encode : List UInt8 → List Char
  | [] => []
  | [a] => [digit (a.toNat / 4), digit (a.toNat % 4 * 16), '=', '=']
  | [a, b] =>
    [digit (a.toNat / 4), digit (a.toNat % 4 * 16 + b.toNat / 16), digit (b.toNat % 16 * 4), '=']
  | a :: b :: c :: rest =>
    digit (a.toNat / 4) :: digit (a.toNat % 4 * 16 + b.toNat / 16) ::
      digit (b.toNat % 16 * 4 + c.toNat / 64) :: digit (c.toNat % 64) :: encode rest

/-- Reads on behind `place` digits of a group, with the bits of the last digit that have
not made a byte and the signs of padding met since. -/
def decodeFrom (place left pads : Nat) : List Char → Option (List UInt8)
  | [] => if place = 0 then some [] else none
  | c :: rest =>
    if c = '=' then
      if 2 ≤ place then
        if 4 ≤ place + (pads + 1) then some [] else decodeFrom place left (pads + 1) rest
      else decodeFrom place left pads rest
    else
      match value c with
      | none => decodeFrom place left pads rest
      | some v =>
        match place with
        | 0 => decodeFrom 1 v 0 rest
        | 1 => (decodeFrom 2 (v % 16) 0 rest).map (UInt8.ofNat (left * 4 + v / 16) :: ·)
        | 2 => (decodeFrom 3 (v % 4) 0 rest).map (UInt8.ofNat (left * 16 + v / 4) :: ·)
        | _ => (decodeFrom 0 0 0 rest).map (UInt8.ofNat (left * 64 + v) :: ·)

/-- The bytes of a text, `none` where its last group is not complete. -/
def decode (text : List Char) : Option (List UInt8) := decodeFrom 0 0 0 text

theorem value_digit : ∀ n < 64, value (digit n) = some n ∧ digit n ≠ '=' := by decide

/-- A digit is read for what it was written for. -/
theorem decodeFrom_digit {n : Nat} (six : n < 64) (place left pads : Nat) (rest : List Char) :
    decodeFrom place left pads (digit n :: rest) =
      match place with
      | 0 => decodeFrom 1 n 0 rest
      | 1 => (decodeFrom 2 (n % 16) 0 rest).map (UInt8.ofNat (left * 4 + n / 16) :: ·)
      | 2 => (decodeFrom 3 (n % 4) 0 rest).map (UInt8.ofNat (left * 16 + n / 4) :: ·)
      | _ => (decodeFrom 0 0 0 rest).map (UInt8.ofNat (left * 64 + n) :: ·) := by
  obtain ⟨reads, sign⟩ := value_digit n six
  rw [decodeFrom, if_neg sign, reads]

/-- The padding that completes a group ends the text. -/
theorem decodeFrom_pad (left : Nat) (rest : List Char) :
    decodeFrom 2 left 0 ('=' :: '=' :: rest) = some [] ∧
      decodeFrom 3 left 0 ('=' :: rest) = some [] := by
  constructor <;> simp [decodeFrom]

theorem ofNat_eq {a : UInt8} {n : Nat} (same : n = a.toNat) : UInt8.ofNat n = a := by
  rw [same, UInt8.ofNat_toNat]

theorem decode_encode (bytes : List UInt8) : decode (encode bytes) = some bytes := by
  rw [decode]
  induction bytes using encode.induct with
  | case1 => rfl
  | case2 a =>
    have ha := a.toNat_lt
    simp only [encode, decodeFrom_digit (show a.toNat / 4 < 64 by omega),
      decodeFrom_digit (show a.toNat % 4 * 16 < 64 by omega), (decodeFrom_pad _ _).1]
    rw [ofNat_eq (show _ = a.toNat by omega)]
    rfl
  | case3 a b =>
    have ha := a.toNat_lt
    have hb := b.toNat_lt
    simp only [encode, decodeFrom_digit (show a.toNat / 4 < 64 by omega),
      decodeFrom_digit (show a.toNat % 4 * 16 + b.toNat / 16 < 64 by omega),
      decodeFrom_digit (show b.toNat % 16 * 4 < 64 by omega), (decodeFrom_pad _ _).2]
    rw [ofNat_eq (show _ = a.toNat by omega), ofNat_eq (show _ = b.toNat by omega)]
    rfl
  | case4 a b c rest ih =>
    have ha := a.toNat_lt
    have hb := b.toNat_lt
    have hc := c.toNat_lt
    simp only [encode, decodeFrom_digit (show a.toNat / 4 < 64 by omega),
      decodeFrom_digit (show a.toNat % 4 * 16 + b.toNat / 16 < 64 by omega),
      decodeFrom_digit (show b.toNat % 16 * 4 + c.toNat / 64 < 64 by omega),
      decodeFrom_digit (show c.toNat % 64 < 64 by omega), ih]
    rw [ofNat_eq (show _ = a.toNat by omega), ofNat_eq (show _ = b.toNat by omega),
      ofNat_eq (show _ = c.toNat by omega)]
    rfl

end Base64
