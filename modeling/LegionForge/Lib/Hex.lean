import Mathlib.Data.List.Basic
import Mathlib.Tactic.Common

/-!
# Bytes in hexadecimal

Two lower-case digits a byte. The reader takes both cases and passes over white space
between bytes; what was written comes back (`decode_encode`).
-/

namespace Hex

def encode (bytes : List UInt8) : List Char :=
  bytes.flatMap fun b => [Nat.digitChar (b.toNat / 16), Nat.digitChar (b.toNat % 16)]

def value (c : Char) : Option Nat :=
  if 48 ≤ c.toNat ∧ c.toNat ≤ 57 then some (c.toNat - 48)
  else if 97 ≤ c.toNat ∧ c.toNat ≤ 102 then some (c.toNat - 87)
  else if 65 ≤ c.toNat ∧ c.toNat ≤ 70 then some (c.toNat - 55)
  else none

def space (c : Char) : Bool := c = ' ' || (9 ≤ c.toNat && c.toNat ≤ 13)

def decode : List Char → Option (List UInt8)
  | [] => some []
  | [c] => if space c then some [] else none
  | c :: d :: rest =>
    if space c then decode (d :: rest)
    else
      match value c, value d with
      | some high, some low => (decode rest).map (UInt8.ofNat (high * 16 + low) :: ·)
      | _, _ => none

theorem value_digitChar : ∀ n < 16,
    value (Nat.digitChar n) = some n ∧ space (Nat.digitChar n) = false := by decide

theorem decode_encode (bytes : List UInt8) : decode (encode bytes) = some bytes := by
  induction bytes with
  | nil => rfl
  | cons b bytes ih =>
    have small := b.toNat_lt
    obtain ⟨high, solid⟩ := value_digitChar (b.toNat / 16) (by omega)
    obtain ⟨low, -⟩ := value_digitChar (b.toNat % 16) (by omega)
    have whole : b.toNat / 16 * 16 + b.toNat % 16 = b.toNat := by omega
    show decode (_ :: _ :: encode bytes) = _
    rw [decode, solid, high, low, ih]
    simp only [whole, UInt8.ofNat_toNat]
    rfl

end Hex
