import LegionForge.Agent.ToolBatch
import LegionForge.Lib.Pieces

/-!
# What becomes of a destructive argument

Two things stand between an argument that holds a destructive pattern and the end
of the run: the scan has to see the pattern in the copy it reads, and
`check_hitl_required` has to put the categories nobody may approve first.

The copy is redacted and cut. A match that the substitutions leave alone and the cut
does not reach is still one, whatever stands next to it now (`categories_seen_of_kept`).

`check_hitl_required` looks at the reviewable categories first, and stores a request for
them whatever else was found (`unapprovable_ends_iff`).
-/

namespace LegionForge.Agent

open JsonText Security Regex

/-! ## What redaction leaves to the scan -/

/-- The substitutions, one after the other, keep `w`, and make `around'` of what stands
before and behind it. -/
def KeptThrough (u : Unicode) (w : List Char) : List PiiPattern →
    List Char × List Char → List Char × List Char → Prop
  | [], around, around' => around = around'
  | p :: ps, around, around' =>
    ∃ next, p.pattern.Keeps u.toCharData false p.replacement.toList w around next ∧
      KeptThrough u w ps next around'

/-- A match of the category in the text that redaction keeps, and that ends before the cut. -/
def MatchKept (u : Unicode) (c : Category) (text : String) : Prop :=
  ∃ before w after around', text.toList = before ++ w ++ after ∧
    c.pattern.Spans u.toCharData true before.reverse w after ∧
    KeptThrough u w PiiPattern.all (before, after) around' ∧
    around'.1.length + w.length ≤ maxFieldLength

/-- The tables say of word characters what they say in Python. -/
structure TextTables (u : Unicode) : Prop extends WordTables u.toCharData where
  bracket : u.word '[' = false
  bracket' : u.word ']' = false
  point : u.word '.' = false

section
variable {u : Unicode}

theorem category_edged (c : Category) : c.pattern.edged false false = true := by
  cases c <;> decide +kernel

theorem category_mem_all (c : Category) : c ∈ Category.all := by
  cases c <;> decide

theorem mem_detected_iff {c : Category} {text : String} :
    c ∈ (detectDestructivePattern u text).2 ↔
      c.pattern.search u.toCharData true text.toList = true := by
  have matched : (detectDestructivePattern u text).2 =
      Category.all.filter fun c => c.pattern.search u.toCharData true text.toList := rfl
  rw [matched, List.mem_filter, and_iff_right (category_mem_all c)]

theorem KeptThrough.redact {w : List Char} {ps : List PiiPattern} :
    ∀ {around around' : List Char × List Char}, KeptThrough u w ps around around' →
      ps.foldl (fun text p => p.pattern.sub u.toCharData false p.replacement.toList text)
        (around.1 ++ w ++ around.2) = around'.1 ++ w ++ around'.2 := by
  induction ps with
  | nil =>
    intro around around' kept
    rw [show around = around' from kept]
    rfl
  | cons p ps ih =>
    rintro around around' ⟨next, keeps, kept⟩
    rw [List.foldl_cons, keeps.sub]
    exact ih kept

theorem keptThrough_of_no_match {w : List Char} {around : List Char × List Char}
    {ps : List PiiPattern} (none : ∀ p ∈ ps, p.pattern.search u.toCharData false
      (around.1 ++ w ++ around.2) = false) : KeptThrough u w ps around around := by
  induction ps with
  | nil => rfl
  | cons p ps ih =>
    exact ⟨around, keeps_of_no_match (none p List.mem_cons_self),
      ih fun q mem => none q (List.mem_cons_of_mem p mem)⟩

theorem KeptThrough.calmer (tables : TextTables u) {w : List Char} {ps : List PiiPattern} :
    ∀ {around around' : List Char × List Char}, KeptThrough u w ps around around' →
      Calmer u.toCharData around.1.reverse around'.1.reverse ∧
        Calmer u.toCharData around.2 around'.2 := by
  induction ps with
  | nil =>
    intro around around' kept
    rw [show around = around' from kept]
    exact ⟨id, id⟩
  | cons p ps ih =>
    rintro around around' ⟨next, keeps, kept⟩
    have brackets : p.replacement.toList ≠ [] ∧ p.replacement.toList.head? = some '[' ∧
        p.replacement.toList.getLast? = some ']' := by
      cases p <;> decide
    obtain ⟨some_text, first, last⟩ := brackets
    have one := keeps.calmer some_text (by rw [first]; exact tables.bracket)
      (by rw [last]; exact tables.bracket')
    have rest := ih kept
    exact ⟨fun word => one.1 (rest.1 word), fun word => one.2 (rest.2 word)⟩

/-- The cut changes nothing up to the stretch, and puts no word character behind it. -/
theorem truncateField_kept (tables : TextTables u) (n : Nat) {before w after : List Char}
    (short : before.length + w.length ≤ maxFieldLength) :
    ∃ rest, truncateField n (before ++ w ++ after) = before ++ w ++ rest ∧
      Calmer u.toCharData after rest := by
  have enough : (before ++ w).length ≤ maxFieldLength := by
    rw [List.length_append]
    exact short
  rcases truncateField_append enough after with whole | cut
  · exact ⟨after, whole, id⟩
  · refine ⟨_, cut, calmer_take after ?_ _⟩
    have mark : (s!"... [truncated, original: {n} chars]".toList).head? = some '.' := by
      simp [toString, String.toList_append]
    rw [mark]
    exact tables.point

/-- The copy has the stretch between what redaction and the cut made of the rest. -/
theorem cleanCopy_kept (tables : TextTables u) {text : String} {before w after : List Char}
    {around' : List Char × List Char} (split : text.toList = before ++ w ++ after)
    (kept : KeptThrough u w PiiPattern.all (before, after) around')
    (short : around'.1.length + w.length ≤ maxFieldLength) :
    ∃ rest, (cleanCopy u text).toList = around'.1 ++ w ++ rest ∧
      Calmer u.toCharData around'.2 rest := by
  obtain ⟨rest, cut, calm⟩ := truncateField_kept tables text.toList.length short
  refine ⟨rest, ?_, calm⟩
  rw [cleanCopy_eq, String.toList_ofList, ← cut, redactPii, ← kept.redact, split]

theorem category_seen_of_kept (tables : TextTables u) {c : Category} {text : String}
    (kept : MatchKept u c text) : c ∈ (detectDestructivePattern u (cleanCopy u text)).2 := by
  obtain ⟨before, w, after, around', split, spans, through, short⟩ := kept
  obtain ⟨left, right⟩ := through.calmer tables
  obtain ⟨rest, copy, right'⟩ := cleanCopy_kept tables split through short
  have found := search_of_spans (spans_calmer tables.toWordTables (category_edged c) left
    (fun word => right (right' word)) spans)
  rw [← copy] at found
  exact mem_detected_iff.mpr found

/-- For every text: if of every category that is found in it some match is kept by the
substitutions and ends before the cut, every category is found in the copy. -/
theorem categories_seen_of_kept (tables : TextTables u) (text : String)
    (kept : ∀ c ∈ (detectDestructivePattern u text).2, MatchKept u c text) :
    ∀ c ∈ (detectDestructivePattern u text).2,
      c ∈ (detectDestructivePattern u (cleanCopy u text)).2 :=
  fun c found => category_seen_of_kept tables (kept c found)

end

theorem word_of_cased (c v : Char) (cased : v ∈ [c.toLower, c.toUpper])
    (word : Unicode.ascii.word v = true) : Unicode.ascii.word c = true := by
  have letter : c.isUpper = true ∨ c.isLower = true → Unicode.ascii.word c = true := by
    intro cased
    have letter : c.isAlpha = true := Bool.or_eq_true_iff.mpr cased
    simp [Unicode.ascii, Char.isAlphanum, letter]
  rcases List.mem_cons.mp cased with rfl | cased
  · unfold Char.toLower at word
    split at word
    · next upper => exact letter (.inl (decide_eq_true upper))
    · exact word
  · rw [List.mem_singleton.mp cased] at word
    unfold Char.toUpper at word
    split at word
    · next lower =>
      refine letter (.inr (Bool.and_eq_true_iff.mpr ?_))
      exact ⟨decide_eq_true lower.1, decide_eq_true lower.2⟩
    · exact word

theorem ascii_tables : TextTables .ascii where
  ascii c h := by simpa [Unicode.ascii] using h
  digit c h := by
    have digit : c.isDigit = true := h
    simp [Unicode.ascii, Char.isAlphanum, digit]
  variant c v := word_of_cased c v
  bracket := by decide
  bracket' := by decide
  point := by decide

/-- An address is redacted, and the command beside it is still seen. -/
theorem sudo_seen_beside_address :
    Category.privilegeEscalation ∈
      (detectDestructivePattern .ascii (cleanCopy .ascii "sudo a@b.io")).2 := by
  have found : (detectDestructivePattern .ascii "sudo a@b.io").2 = [.privilegeEscalation] := by
    decide +kernel
  refine categories_seen_of_kept ascii_tables _ (fun c mem => ?_) _
    (by rw [found]; exact List.mem_cons_self)
  rw [found, List.mem_singleton] at mem
  rw [mem]
  refine ⟨[], "sudo".toList, " a@b.io".toList, ([], " [EMAIL]".toList), by decide,
    by decide +kernel, ?_, by decide⟩
  have rest : ∀ p ∈ PiiPattern.all.tail, p.pattern.search Unicode.ascii.toCharData false
      ([] ++ "sudo".toList ++ " [EMAIL]".toList) = false := by
    decide +kernel
  refine ⟨([], " [EMAIL]".toList), ⟨[], [.kept ' ', .replaced "a@b.io".toList], ?_⟩,
    keptThrough_of_no_match rest⟩
  decide +kernel

/-- A command substitution that is hidden with the path it ends in. -/
theorem hidden_command_substitution :
    Category.cmdInjection ∈
        (detectDestructivePattern .ascii "$(cat /home/ada/b)").2 ∧
      Category.cmdInjection ∉ (detectDestructivePattern .ascii
        (cleanCopy .ascii "$(cat /home/ada/b)")).2 := by
  have copy : cleanCopy .ascii "$(cat /home/ada/b)" = "$(cat [HOME_PATH]" := by
    decide +kernel
  rw [mem_detected_iff, mem_detected_iff, copy]
  decide +kernel

/-! ## Categories nobody may approve -/

/-- The run is to end and is not to wait for an operator. -/
structure EndsWithoutApproval (u : Update) : Prop where
  ends : u.forceEnd = some true
  unapproved : u.hitlPending ≠ some true

/-- For every list of categories with an unapprovable one among them and every
answer of the database: the run ends without approval exactly when nothing in the
list is reviewable or the request could not be stored. -/
theorem unapprovable_ends_iff (action text : String) (s : AgentState)
    (thread : Option String) (cats : List Category) (inserted : Option String)
    (force : ∃ c ∈ cats, c.forceEnd = true) :
    EndsWithoutApproval (checkHitlRequired action text s thread cats inserted).2 ↔
      (∀ c ∈ cats, c.review = false) ∨ inserted = none := by
  have forced : (cats.filter (·.forceEnd)).isEmpty = false := by
    obtain ⟨c, mem, hc⟩ := force
    exact List.isEmpty_eq_false_iff.mpr (List.ne_nil_of_mem (List.mem_filter.mpr ⟨mem, hc⟩))
  have quiet : (cats.filter (·.review)).isEmpty = true ↔ ∀ c ∈ cats, c.review = false := by
    simp [List.filter_eq_nil_iff]
  have ended : EndsWithoutApproval { forceEnd := some true } := ⟨rfl, by decide⟩
  simp only [checkHitlRequired, forced, Bool.false_eq_true, if_false]
  cases reviewed : (cats.filter (·.review)).isEmpty with
  | true => exact ⟨fun _ => .inl (quiet.mp reviewed), fun _ => ended⟩
  | false =>
    cases inserted with
    | none => exact ⟨fun _ => .inr rfl, fun _ => ended⟩
    | some requestId =>
      refine ⟨fun h => absurd rfl h.unapproved, ?_⟩
      rintro (none | none)
      · rw [quiet.mpr none] at reviewed
        cases reviewed
      · cases none

/-- With the database out of reach both kinds end the run. -/
theorem unstored_request_ends :
    EndsWithoutApproval (checkHitlRequired "bash.command" "cat /etc/passwd; sudo ls"
      (sampleState []) none [.systemPathProbe, .privilegeEscalation] none).2 :=
  (unapprovable_ends_iff _ _ _ _ _ none ⟨.privilegeEscalation, by decide, rfl⟩).mpr (.inr rfl)

/-- A stored request lets an operator approve what nobody may approve. -/
theorem unapprovable_put_to_operator :
    ¬ EndsWithoutApproval (checkHitlRequired "bash.command" "cat /etc/passwd; sudo ls"
      (sampleState []) none [.systemPathProbe, .privilegeEscalation] (some "request-1")).2 := by
  intro h
  exact h.unapproved rfl

end LegionForge.Agent
