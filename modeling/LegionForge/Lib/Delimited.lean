import Mathlib.Algebra.Group.Nat.Defs
import Mathlib.Data.List.Basic

/-!
# Delimited and zero-padded text

A record that is written out as fields joined by a separator can be read back
only as far as the fields keep the separator out of their own text. The lemmas
here are the two halves of that argument that do not depend on the record: a
field free of the separator is determined by the joined text, and decimal
numbers, padded to a width or not, are such fields and are determined by their
digits.
-/

namespace Delimited

/-- The first separator ends the first field, whatever follows it. -/
theorem append_cons_inj {α : Type*} {sep : α} {a b x y : List α}
    (ha : sep ∉ a) (hb : sep ∉ b) (h : a ++ sep :: x = b ++ sep :: y) :
    a = b ∧ x = y := by
  induction a generalizing b with
  | nil =>
      cases b with
      | nil => exact ⟨rfl, (List.cons.inj h).2⟩
      | cons c b =>
          have hc : sep = c := (List.cons.inj h).1
          exact absurd (hc ▸ List.mem_cons_self) hb
  | cons c a ih =>
      cases b with
      | nil =>
          have hc : c = sep := (List.cons.inj h).1
          exact absurd (hc ▸ List.mem_cons_self) ha
      | cons d b =>
          obtain ⟨hcd, htail⟩ := List.cons.inj h
          obtain ⟨hab, hxy⟩ := ih (List.not_mem_of_not_mem_cons ha)
            (List.not_mem_of_not_mem_cons hb) htail
          exact ⟨by rw [hcd, hab], hxy⟩

/-! ## Decimal numbers -/

theorem toDigits_inj {m n : Nat} (h : Nat.toDigits 10 m = Nat.toDigits 10 n) :
    m = n := by
  rw [← Nat.ofDigitChars_ten_toDigits (n := m), h, Nat.ofDigitChars_ten_toDigits]

theorem not_isDigit_not_mem_toDigits {n : Nat} {c : Char}
    (hc : c.isDigit = false) : c ∉ Nat.toDigits 10 n := by
  intro h
  rw [Nat.isDigit_of_mem_toDigits (by omega) (by omega) h] at hc
  cases hc

/-- A decimal number padded with zeros on the left up to a width. -/
def pad (w n : Nat) : List Char :=
  List.replicate (w - (Nat.toDigits 10 n).length) '0' ++ Nat.toDigits 10 n

theorem isDigit_of_mem_pad {w n : Nat} {c : Char} (hc : c ∈ pad w n) :
    c.isDigit = true := by
  rcases List.mem_append.mp hc with hz | hd
  · rw [(List.mem_replicate.mp hz).2]
    rfl
  · exact Nat.isDigit_of_mem_toDigits (by omega) (by omega) hd

theorem ofDigitChars_zeros (k : Nat) (ds : List Char) :
    Nat.ofDigitChars 10 (List.replicate k '0' ++ ds) 0 =
      Nat.ofDigitChars 10 ds 0 := by
  induction k with
  | zero => rfl
  | succ k ih =>
      rw [List.replicate_succ, List.cons_append, Nat.ofDigitChars_cons]
      exact ih

theorem ofDigitChars_pad (w n : Nat) :
    Nat.ofDigitChars 10 (pad w n) 0 = n := by
  rw [pad, ofDigitChars_zeros, Nat.ofDigitChars_ten_toDigits]

theorem pad_inj {v w m n : Nat} (h : pad v m = pad w n) : m = n := by
  rw [← ofDigitChars_pad v m, h, ofDigitChars_pad]

/-- A number below `10 ^ w` fills its width exactly. -/
theorem length_pad {w n : Nat} (hw : 0 < w) (hn : n < 10 ^ w) :
    (pad w n).length = w := by
  have hlen : (Nat.toDigits 10 n).length ≤ w :=
    (Nat.length_toDigits_le_iff (by omega) hw).mpr hn
  rw [pad, List.length_append, List.length_replicate]
  omega

end Delimited
