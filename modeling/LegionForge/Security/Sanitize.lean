import LegionForge.Security.Patterns

/-!
# Detection and redaction

`detect_injection`, `sanitize_text` with its two names for tool input and tool
output, and `detect_destructive_pattern`. Injection is looked for in the text
as it came, after normalisation; the redacted and possibly truncated copy is
what every later check of the caller sees, and `sanitizeText_eq_self` says when
that copy is the text itself.
-/

namespace LegionForge.Security

open Regex

/-- Python's character tables: what `re` asks of them, `unicodedata`'s NFKC
normal form, and `str.lower` and `str.upper`. -/
structure Unicode extends CharData where
  nfkc : List Char → List Char
  lower : List Char → List Char
  upper : List Char → List Char

/-- The tables restricted to ASCII, which is all a pattern asks about a text
without other characters. -/
def Unicode.ascii : Unicode where
  space c := " \t\n\r\x0b\x0c\x1c\x1d\x1e\x1f".toList.contains c
  digit := Char.isDigit
  word c := c.isAlphanum || c = '_'
  variants c := [c.toLower, c.toUpper]
  nfkc text := text
  lower text := text.map Char.toLower
  upper text := text.map Char.toUpper

/-- `str.strip` -/
def Unicode.strip (u : Unicode) (text : String) : String :=
  let left := text.toList.dropWhile u.space
  String.ofList (left.reverse.dropWhile u.space).reverse

section
variable (u : Unicode)

/-! ## Injection -/

/-- What `_ZERO_WIDTH_RE` strips. -/
def zeroWidth : List Char :=
  ['\u200b', '\u200c', '\u200d', '\u200e', '\u200f', '\u2060', '\ufeff']

def normalizeForDetection (text : String) : List Char :=
  (u.nfkc text.toList).filter fun c => !zeroWidth.contains c

def detectInjection (text : String) : Bool × List InjectionPattern :=
  let normalized := normalizeForDetection u text
  let hits := InjectionPattern.all.filter fun p =>
    p.pattern.search u.toCharData true normalized
  (!hits.isEmpty, hits)

def hasHaltWorthyInjection (matched : List InjectionPattern) : Bool :=
  matched.any (·.halts)

/-! ## Redaction -/

/-- `_MAX_FIELD_LENGTH` -/
def maxFieldLength : Nat := 10000

structure SanitizeMeta where
  piiRedacted : Bool
  injectionDetected : Bool
  injectionPatterns : List InjectionPattern
  truncated : Bool
  originalLength : Nat

def redactPii (text : List Char) : List Char :=
  PiiPattern.all.foldl (fun text p =>
    p.pattern.sub u.toCharData false p.replacement.toList text) text

def truncateField (originalLength : Nat) (text : List Char) : List Char :=
  if text.length > maxFieldLength then
    text.take maxFieldLength ++
      s!"... [truncated, original: {originalLength} chars]".toList
  else text

def sanitizeText (text : String) (redact checkInjection truncate : Bool) :
    String × SanitizeMeta :=
  let original := text.toList
  -- injection is looked for before anything is changed
  let found := if checkInjection then detectInjection u text else (false, [])
  let redacted := if redact then redactPii u original else original
  let kept := if truncate then truncateField original.length redacted else redacted
  (String.ofList kept,
    { piiRedacted := redacted != original
      injectionDetected := found.1
      injectionPatterns := found.2
      truncated := truncate && decide (redacted.length > maxFieldLength)
      originalLength := original.length })

def sanitizeToolInput (text : String) : String × SanitizeMeta :=
  sanitizeText u text true true true

def sanitizeOutput (text : String) : String × SanitizeMeta :=
  sanitizeText u text true true true

/-! ## Destructive patterns -/

def detectDestructivePattern (text : String) : Bool × List Category :=
  let matched := Category.all.filter fun c =>
    c.pattern.search u.toCharData true text.toList
  (!matched.isEmpty, matched)

/-! ## What the callers act on -/

/-- The text holds a Tier 1 injection pattern. -/
def tier1Injection (text : String) : Bool :=
  hasHaltWorthyInjection (detectInjection u text).2

/-- The text holds a destructive pattern no operator may approve. -/
def forceEndText (text : String) : Bool :=
  (detectDestructivePattern u text).2.any (·.forceEnd)

/-- The copy of a tool argument that its later checks see. -/
def cleanCopy (text : String) : String := (sanitizeToolInput u text).1

/-- The text holds nothing redaction looks for and is short enough to keep. -/
def plainText (text : String) : Bool :=
  PiiPattern.all.all (fun p => !p.pattern.search u.toCharData false text.toList) &&
    decide (text.toList.length ≤ maxFieldLength)

variable {u}

@[simp] theorem sanitizeToolInput_patterns (text : String) :
    (sanitizeToolInput u text).2.injectionPatterns = (detectInjection u text).2 :=
  rfl

@[simp] theorem sanitizeToolInput_detected (text : String) :
    (sanitizeToolInput u text).2.injectionDetected =
      !(detectInjection u text).2.isEmpty :=
  rfl

/-- A halting pattern is in particular a detected one, so the caller's test of
the flag before the tier loses nothing. -/
theorem tier1Injection_detected {text : String} (h : tier1Injection u text = true) :
    (detectInjection u text).2.isEmpty = false := by
  rw [tier1Injection, hasHaltWorthyInjection] at h
  obtain ⟨p, hp, -⟩ := List.any_eq_true.mp h
  exact List.isEmpty_eq_false_iff.mpr (List.ne_nil_of_mem hp)

/-- The caller's test of a tool argument. -/
theorem sanitizeToolInput_halts (text : String) :
    ((sanitizeToolInput u text).2.injectionDetected &&
        hasHaltWorthyInjection (sanitizeToolInput u text).2.injectionPatterns) =
      tier1Injection u text := by
  rw [sanitizeToolInput_patterns, sanitizeToolInput_detected]
  show _ = tier1Injection u text
  cases h : tier1Injection u text with
  | false => rw [tier1Injection] at h; rw [h, Bool.and_false]
  | true =>
    rw [tier1Injection_detected h]
    rw [tier1Injection] at h
    rw [h]
    rfl

theorem detectDestructivePattern_fst (text : String) :
    (detectDestructivePattern u text).1 =
      !(detectDestructivePattern u text).2.isEmpty :=
  rfl

theorem forceEndText_detected {text : String} (h : forceEndText u text = true) :
    (detectDestructivePattern u text).1 = true := by
  rw [forceEndText] at h
  obtain ⟨c, hc, -⟩ := List.any_eq_true.mp h
  rw [detectDestructivePattern_fst,
    List.isEmpty_eq_false_iff.mpr (List.ne_nil_of_mem hc)]
  rfl

theorem redactPii_eq_self {text : List Char}
    (h : ∀ p ∈ PiiPattern.all, p.pattern.search u.toCharData false text = false) :
    redactPii u text = text := by
  unfold redactPii
  generalize PiiPattern.all = ps at h
  induction ps with
  | nil => rfl
  | cons p ps ih =>
    rw [List.foldl_cons, sub_eq_self (h p List.mem_cons_self)]
    exact ih fun q hq => h q (List.mem_cons_of_mem p hq)

theorem truncateField_eq_self {n : Nat} {text : List Char}
    (h : text.length ≤ maxFieldLength) : truncateField n text = text := by
  rw [truncateField, if_neg (Nat.not_lt.mpr h)]

/-- The cut leaves the beginning of a text as it is. -/
theorem truncateField_append {n : Nat} {start : List Char}
    (short : start.length ≤ maxFieldLength) (rest : List Char) :
    truncateField n (start ++ rest) = start ++ rest ∨
      truncateField n (start ++ rest) = start ++ (rest.take (maxFieldLength - start.length) ++
        s!"... [truncated, original: {n} chars]".toList) := by
  unfold truncateField
  split
  · rw [List.take_append, List.take_of_length_le short, List.append_assoc]
    exact .inr rfl
  · exact .inl rfl

theorem cleanCopy_eq (text : String) :
    cleanCopy u text =
      String.ofList (truncateField text.toList.length (redactPii u text.toList)) := by
  simp only [cleanCopy, sanitizeToolInput, sanitizeText, if_true]

/-- Nothing to redact and nothing to cut: the checks see the text itself. -/
theorem cleanCopy_eq_self {text : String} (h : plainText u text = true) :
    cleanCopy u text = text := by
  rw [plainText, Bool.and_eq_true] at h
  obtain ⟨none, short⟩ := h
  have none : ∀ p ∈ PiiPattern.all,
      p.pattern.search u.toCharData false text.toList = false := by
    simpa using none
  rw [cleanCopy_eq, redactPii_eq_self none,
    truncateField_eq_self (of_decide_eq_true short), String.ofList_toList]

end

end LegionForge.Security
