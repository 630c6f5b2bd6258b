import LegionForge.Lib.Fence
import LegionForge.Security.Sanitize

/-!
# Injection in a text with fences

A line of three hyphens is a fence to every injection pattern: none reads more than two of
them, none starts at one or at a newline. So a text with such lines in it is suspicious
exactly when one of the parts between them is.
-/

namespace LegionForge.Security

open Regex

/-- Newline and hyphen are what they are in ASCII, a newline keeps normalisation apart,
and ASCII text is its own normal form. -/
structure Unicode.KeepsLines (u : Unicode) : Prop where
  newline : AgreeAt u.toCharData Unicode.ascii.toCharData '\n'
  hyphen : AgreeAt u.toCharData Unicode.ascii.toCharData '-'
  nfkc_newline : ∀ text rest, u.nfkc (text ++ '\n' :: rest) = u.nfkc text ++ '\n' :: u.nfkc rest
  nfkc_ascii : ∀ text, (∀ c ∈ text, c.toNat < 128) → u.nfkc text = text

/-- Three hyphens on a line of their own, and so many blank lines behind. -/
def fence (blank : Nat) : List Char := ['\n', '-', '-', '-', '\n'] ++ List.replicate blank '\n'

theorem of_mem_fence {blank : Nat} {c : Char} (h : c ∈ fence blank) : c = '\n' ∨ c = '-' := by
  rcases List.mem_append.mp h with line | more
  · simp only [List.mem_cons, List.not_mem_nil, or_false] at line
    tauto
  · exact .inl (List.eq_of_mem_replicate more)

/-! ## The patterns -/

theorem patterns_reach : ∀ p ∈ InjectionPattern.all,
    ∃ n ∈ List.range 3, p.pattern.reach Unicode.ascii.toCharData true '-' = some n := by
  decide +kernel

theorem patterns_barred : ∀ p ∈ InjectionPattern.all,
    p.pattern.barred Unicode.ascii.toCharData true '\n' = true ∧
      p.pattern.barred Unicode.ascii.toCharData true '-' = true := by
  decide +kernel

section
variable {u : Unicode}

theorem pattern_search_fence (lines : u.KeepsLines) {p : InjectionPattern}
    (hp : p ∈ InjectionPattern.all) (blank : Nat) (text rest : List Char) :
    p.pattern.search u.toCharData true (text ++ fence blank ++ rest) =
      (p.pattern.search u.toCharData true (text ++ fence blank) ||
        p.pattern.search u.toCharData true rest) := by
  obtain ⟨n, short, reach⟩ := patterns_reach p hp
  rw [← reach_congr lines.hyphen] at reach
  have barred : ∀ e ∈ fence blank, p.pattern.barred u.toCharData true e = true := by
    intro e he
    rcases of_mem_fence he with rfl | rfl
    · exact (barred_congr lines.newline _).trans (patterns_barred p hp).1
    · exact (barred_congr lines.hyphen _).trans (patterns_barred p hp).2
  have plain : ∀ e ∈ fence blank, u.word e = false := by
    intro e he
    rcases of_mem_fence he with rfl | rfl
    · exact lines.newline.word
    · exact lines.hyphen.word
  have long : n < (fence blank).count '-' := by
    have three : (fence blank).count '-' = 3 := by
      rw [fence, List.count_append, List.count_replicate]
      rfl
    rw [three]
    exact List.mem_range.mp short
  exact search_fence reach long barred plain

/-! ## Normalisation -/

theorem normalize_newline (lines : u.KeepsLines) (text rest : List Char) :
    normalizeForDetection u (String.ofList (text ++ '\n' :: rest)) =
      normalizeForDetection u (String.ofList text) ++
        '\n' :: normalizeForDetection u (String.ofList rest) := by
  simp only [normalizeForDetection, String.toList_ofList, lines.nfkc_newline, List.filter_append]
  rfl

theorem normalize_ascii (lines : u.KeepsLines) {text : List Char}
    (ascii : ∀ c ∈ text, c.toNat < 128) : normalizeForDetection u (String.ofList text) =
      text.filter fun c => !zeroWidth.contains c := by
  rw [normalizeForDetection, String.toList_ofList, lines.nfkc_ascii text ascii]

theorem normalize_nil (lines : u.KeepsLines) :
    normalizeForDetection u (String.ofList []) = [] :=
  normalize_ascii lines fun _ h => absurd h List.not_mem_nil

theorem normalize_fence (lines : u.KeepsLines) (blank : Nat) (text rest : List Char) :
    normalizeForDetection u (String.ofList (text ++ fence blank ++ rest)) =
      normalizeForDetection u (String.ofList text) ++ fence blank ++
        normalizeForDetection u (String.ofList rest) := by
  have hyphens : normalizeForDetection u (String.ofList ['-', '-', '-']) = ['-', '-', '-'] := by
    refine normalize_ascii lines fun c hc => ?_
    obtain rfl : c = '-' := by simpa using hc
    decide
  have blanks : normalizeForDetection u (String.ofList (List.replicate blank '\n' ++ rest)) =
      List.replicate blank '\n' ++ normalizeForDetection u (String.ofList rest) := by
    induction blank with
    | zero => rfl
    | succ blank ih =>
      have first := normalize_newline lines [] (List.replicate blank '\n' ++ rest)
      rw [normalize_nil lines, ih] at first
      exact first
  calc normalizeForDetection u (String.ofList (text ++ fence blank ++ rest))
      = normalizeForDetection u (String.ofList (text ++ '\n' :: (['-', '-', '-'] ++
          '\n' :: (List.replicate blank '\n' ++ rest)))) := by
        rw [fence, List.append_assoc, List.append_assoc]
        rfl
    _ = normalizeForDetection u (String.ofList text) ++ fence blank ++
          normalizeForDetection u (String.ofList rest) := by
        rw [normalize_newline lines, normalize_newline lines, hyphens, blanks, fence,
          List.append_assoc, List.append_assoc]
        rfl

/-! ## Detection -/

theorem detect_eq_any (text : String) : (detectInjection u text).1 =
    InjectionPattern.all.any fun p =>
      p.pattern.search u.toCharData true (normalizeForDetection u text) := by
  rw [detectInjection, Bool.eq_iff_iff, List.any_eq_true]
  simp [List.filter_eq_nil_iff]

/-- A text is suspicious if it is up to the end of a fence, or behind it. -/
theorem detect_fence (lines : u.KeepsLines) (blank : Nat) (text rest : List Char) :
    (detectInjection u (String.ofList (text ++ fence blank ++ rest))).1 =
      ((detectInjection u (String.ofList (text ++ fence blank))).1 ||
        (detectInjection u (String.ofList rest)).1) := by
  have up_to := normalize_fence lines blank text []
  rw [List.append_nil, normalize_nil lines, List.append_nil] at up_to
  rw [detect_eq_any, detect_eq_any, detect_eq_any, normalize_fence lines, up_to,
    Bool.eq_iff_iff, Bool.or_eq_true, List.any_eq_true, List.any_eq_true, List.any_eq_true]
  have cut {p : InjectionPattern} (hp : p ∈ InjectionPattern.all) := pattern_search_fence lines hp
    blank (normalizeForDetection u (String.ofList text))
      (normalizeForDetection u (String.ofList rest))
  refine ⟨?_, ?_⟩
  · rintro ⟨p, hp, found⟩
    rw [cut hp, Bool.or_eq_true] at found
    exact found.imp (fun before => ⟨p, hp, before⟩) fun behind => ⟨p, hp, behind⟩
  · rintro (⟨p, hp, before⟩ | ⟨p, hp, behind⟩)
    · exact ⟨p, hp, by rw [cut hp, before, Bool.true_or]⟩
    · exact ⟨p, hp, by rw [cut hp, behind, Bool.or_true]⟩

end

end LegionForge.Security
