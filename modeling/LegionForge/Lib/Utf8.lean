import Mathlib.Algebra.GroupWithZero.Nat
import Mathlib.Data.List.Basic
import Mathlib.Tactic.Common

/-!
# Text cut at a number of bytes

A limit in bytes does not know where a character ends, and a limit in characters does not
know how many bytes it lets through. For the first, cutting the bytes gives a text exactly
where the limit falls between two characters (`fromUTF8_extract_isSome_iff`); for the
second, what is kept fits the same number of bytes exactly where it was not cut or is all
of one byte each (`size_take_le_iff`).

`decodeReplace` reads bytes that need not be UTF-8 at all.
-/

namespace Utf8

/-! ## Bytes of characters -/

theorem one_le_utf8Size (c : Char) : 1 ≤ c.utf8Size := c.utf8Size_pos

/-- The bytes of a text. -/
def size (text : List Char) : Nat := (text.map Char.utf8Size).sum

@[simp] theorem size_nil : size [] = 0 := rfl

@[simp] theorem size_cons (c : Char) (text : List Char) :
    size (c :: text) = c.utf8Size + size text := by
  simp [size]

@[simp] theorem size_append (a b : List Char) : size (a ++ b) = size a + size b := by
  simp [size]

theorem utf8ByteSize_ofList (text : List Char) : (String.ofList text).utf8ByteSize = size text := by
  induction text with
  | nil => rfl
  | cons c text ih =>
    rw [← List.singleton_append, String.ofList_append, String.utf8ByteSize_append, ih,
      ← String.singleton_eq_ofList, String.utf8ByteSize_singleton]
    simp

theorem utf8ByteSize_eq (s : String) : s.utf8ByteSize = size s.toList := by
  rw [← utf8ByteSize_ofList, String.ofList_toList]

theorem length_le_size (text : List Char) : text.length ≤ size text := by
  induction text with
  | nil => simp
  | cons c text ih =>
    have := one_le_utf8Size c
    simp only [List.length_cons, size_cons]
    omega

/-- As many bytes as characters. -/
theorem size_eq_length_iff (text : List Char) :
    size text = text.length ↔ ∀ c ∈ text, c.utf8Size = 1 := by
  induction text with
  | nil => simp
  | cons c text ih =>
    have here := one_le_utf8Size c
    have there := length_le_size text
    rw [List.forall_mem_cons, ← ih, size_cons, List.length_cons]
    omega

/-- What is kept of a text by its characters, in bytes. -/
theorem size_take_le_iff (text : List Char) (n : Nat) :
    size (text.take n) ≤ n ↔ size text ≤ n ∨ ∀ c ∈ text.take n, c.utf8Size = 1 := by
  constructor
  · intro fits
    by_cases short : text.length ≤ n
    · rw [List.take_of_length_le short] at fits
      exact .inl fits
    · have full : (text.take n).length = n := by
        rw [List.length_take]
        omega
      have least := length_le_size (text.take n)
      exact .inr ((size_eq_length_iff _).mp (by omega))
  · rintro (whole | single)
    · have split := congrArg size (List.take_append_drop n text)
      rw [size_append] at split
      omega
    · rw [(size_eq_length_iff _).mpr single]
      exact List.length_take_le n text

/-! ## Bytes cut -/

theorem bytes_of_fromUTF8 {b : ByteArray} {t : String} (read : String.fromUTF8? b = some t) :
    t.toByteArray = b := by
  unfold String.fromUTF8? at read
  split at read
  · cases read
    rfl
  · cases read

theorem fromUTF8_toByteArray (s : String) : String.fromUTF8? s.toByteArray = some s := by
  rw [String.fromUTF8?, dif_pos s.isValidUTF8]
  rfl

/-- A text whose bytes are the first bytes of another's is its beginning. -/
theorem prefix_of_extract {s t : String} {n : Nat}
    (cut : t.toByteArray = s.toByteArray.extract 0 n) : t.toList <+: s.toList := by
  apply List.isPrefix_of_utf8Encode_append_eq_utf8Encode
    (s.toByteArray.extract n s.toByteArray.size)
  rw [String.utf8Encode_toList, String.utf8Encode_toList, cut, ByteArray.extract_append_extract,
    Nat.zero_min]
  exact ByteArray.extract_zero_max_size

/-- The beginning of a text, cut out of its bytes. -/
theorem extract_beginning {s t : String} (start : t.toList <+: s.toList) :
    s.toByteArray.extract 0 t.utf8ByteSize = t.toByteArray := by
  obtain ⟨rest, whole⟩ := start
  have bytes : s.toByteArray = t.toByteArray ++ rest.utf8Encode := by
    rw [← String.utf8Encode_toList, ← whole, List.utf8Encode_append, String.utf8Encode_toList]
  rw [bytes]
  exact ByteArray.extract_append_eq_left rfl

theorem extract_whole {s : String} {n : Nat} (whole : s.utf8ByteSize ≤ n) :
    s.toByteArray.extract 0 n = s.toByteArray := by
  have all := @ByteArray.extract_zero_max_size s.toByteArray n
  rwa [String.size_toByteArray, Nat.max_eq_left whole] at all

/-- Bytes cut at a limit are a text exactly where nothing is cut off or the limit falls
between two characters. -/
theorem fromUTF8_extract_isSome_iff (s : String) (n : Nat) :
    (String.fromUTF8? (s.toByteArray.extract 0 n)).isSome = true ↔
      s.utf8ByteSize ≤ n ∨ ∃ t : String, t.toList <+: s.toList ∧ t.utf8ByteSize = n := by
  constructor
  · intro read
    obtain ⟨t, read⟩ := Option.isSome_iff_exists.mp read
    have cut := bytes_of_fromUTF8 read
    by_cases whole : s.utf8ByteSize ≤ n
    · exact .inl whole
    · have size := congrArg ByteArray.size cut
      rw [ByteArray.size_extract, String.size_toByteArray, String.size_toByteArray] at size
      exact .inr ⟨t, prefix_of_extract cut, by omega⟩
  · rintro (whole | ⟨t, start, rfl⟩)
    · rw [extract_whole whole, fromUTF8_toByteArray]
      rfl
    · rw [extract_beginning start, fromUTF8_toByteArray]
      rfl

/-! ## Bytes that need not be text -/

/-- How many bytes are to follow a first byte, and the bounds of the one right behind it. -/
def expected (first : UInt8) : Nat × UInt8 × UInt8 :=
  if 0xC2 ≤ first ∧ first ≤ 0xDF then (1, 0x80, 0xBF)
  else if first = 0xE0 then (2, 0xA0, 0xBF)
  else if first = 0xED then (2, 0x80, 0x9F)
  else if 0xE1 ≤ first ∧ first ≤ 0xEF then (2, 0x80, 0xBF)
  else if first = 0xF0 then (3, 0x90, 0xBF)
  else if first = 0xF4 then (3, 0x80, 0x8F)
  else if 0xF1 ≤ first ∧ first ≤ 0xF3 then (3, 0x80, 0xBF)
  else (0, 0x80, 0xBF)

/-- How many of the bytes expected do follow. -/
def following : Nat → UInt8 → UInt8 → List UInt8 → Nat
  | count + 1, lo, hi, b :: rest =>
    if lo ≤ b ∧ b ≤ hi then 1 + following count 0x80 0xBF rest else 0
  | _, _, _, _ => 0

/-- `decode("utf-8", errors="replace")`: for what is no character, U+FFFD stands once for
each first byte with as many of the expected ones as follow. -/
def decodeReplaceFrom : Nat → List UInt8 → List Char
  | 0, _ | _, [] => []
  | fuel + 1, b :: rest =>
    let (count, lo, hi) := expected b
    let n := following count lo hi rest
    let read := match String.fromUTF8? ⟨(b :: rest.take n).toArray⟩ with
      | some s => s.toList
      | none => ['\ufffd']
    read ++ decodeReplaceFrom fuel (rest.drop n)

def decodeReplace (bytes : ByteArray) : String :=
  String.ofList (decodeReplaceFrom bytes.size bytes.data.toList)

end Utf8
