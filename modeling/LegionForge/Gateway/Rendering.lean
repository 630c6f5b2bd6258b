import LegionForge.Gateway.Scheduler
import LegionForge.Lib.Scan

/-!
# Pipeline templates

`render_template` is one `re.sub` over the template: what it puts in for a placeholder is
not looked at again. The text of a template can be cut at its placeholders in one way
(`CutAtPlaceholders`), and `render_is_substitution` says that the rendered text is that of
the parts, each by itself.
-/

namespace LegionForge.Gateway

/-- A step of a pipeline definition, with the `max_length` of its text. -/
structure PipelineStep where
  name : String
  taskText : String
  agentType : String
  short : taskText.length ≤ 4000

/-- A character of a template, or a placeholder: that of the initial input, or that of a
step's result, with the digits of the step. -/
inductive TemplatePart where
  | literal (c : Char)
  | input
  | result (digits : List Char)
  deriving DecidableEq

def stepOpening : List Char := ['{', '{', 's', 't', 'e', 'p', '_']

def resultClosing : List Char := ['.', 'r', 'e', 's', 'u', 'l', 't', '}', '}']

/-- The part as it stands in the template. -/
def TemplatePart.source : TemplatePart → List Char
  | .literal c => [c]
  | .input => ['{', '{', 'i', 'n', 'p', 'u', 't', '}', '}']
  | .result digits => stepOpening ++ (digits ++ resultClosing)

section
variable (env : CronEnv)

/-! ## `render_template` -/

/-- A match of `_TEMPLATE_RE` at the head of the text, with what comes behind it. -/
def templateMatch (text : List Char) : Option (TemplatePart × List Char) :=
  if TemplatePart.input.source.isPrefixOf text then some (.input, text.drop 9)
  else if stepOpening.isPrefixOf text then
    let digits := (text.drop 7).takeWhile env.unicode.digit
    let rest := (text.drop 7).dropWhile env.unicode.digit
    if !digits.isEmpty && resultClosing.isPrefixOf rest then
      some (.result digits, rest.drop 9)
    else none
  else none

variable (initialInput : String) (stepResults : List (Option String))

/-- `replace`, `none` where `int` raises. A step that has not run yet leaves its
placeholder as it is. -/
def replace : TemplatePart → Option (List Char)
  | .literal c => some [c]
  | .input => some initialInput.toList
  | .result digits => do
    let idx ← env.int digits
    match stepResults[idx]? with
    | some result => some (result.getD "").toList
    | none => some (TemplatePart.result digits).source

def renderFrom : Nat → List Char → Option (List Char)
  | 0, text => some text
  | _ + 1, [] => some []
  | fuel + 1, c :: text =>
    match templateMatch env (c :: text) with
    | some (part, rest) => do
      let value ← replace env initialInput stepResults part
      return value ++ (← renderFrom fuel rest)
    | none => do return c :: (← renderFrom fuel text)

/-- `render_template`, `none` where it raises. -/
def renderTemplate (text : String) : Option String :=
  (renderFrom env initialInput stepResults text.toList.length text.toList).map String.ofList

end

/-! ## Substitution -/

namespace TemplatePart

/-- The part is a placeholder. -/
def IsPlaceholder (env : CronEnv) : TemplatePart → Prop
  | .literal _ => False
  | .input => True
  | .result digits => digits ≠ [] ∧ ∀ c ∈ digits, env.unicode.digit c = true

/-- The number the digits stand for. -/
def number (env : CronEnv) (digits : List Char) : Nat :=
  digits.foldl (fun n c => 10 * n + env.digitValue c) 0

/-- What a placeholder stands for; `none` if it cannot be resolved yet. -/
def value (env : CronEnv) (initialInput : String) (stepResults : List (Option String)) :
    TemplatePart → Option String
  | .literal _ => none
  | .input => some initialInput
  | .result digits => (stepResults[number env digits]?).map (·.getD "")

/-- The value in place of the part, which stays as it is if there is none. -/
def substituted (env : CronEnv) (initialInput : String) (stepResults : List (Option String))
    (part : TemplatePart) : List Char :=
  ((part.value env initialInput stepResults).map (·.toList)).getD part.source

end TemplatePart

/-- The text is cut at its placeholders: wherever one stands in the text, it is a part. -/
structure CutAtPlaceholders (env : CronEnv) (text : List Char) (parts : List TemplatePart) :
    Prop where
  whole : parts.flatMap (·.source) = text
  proper : ∀ part ∈ parts, (∃ c, part = .literal c) ∨ part.IsPlaceholder env
  all : ∀ before (part : TemplatePart) behind, part.IsPlaceholder env →
    text = before ++ (part.source ++ behind) → ∃ earlier later, parts = earlier ++ part :: later ∧
      earlier.flatMap (·.source) = before ∧ later.flatMap (·.source) = behind

/-- Neither brace nor full stop is a digit. -/
structure CronEnv.PlainDigits (env : CronEnv) : Prop where
  brace : env.unicode.digit '{' = false
  stop : env.unicode.digit '.' = false

section
variable {env : CronEnv} {initialInput : String} {stepResults : List (Option String)}

/-! ## One match -/

theorem source_ne_nil (part : TemplatePart) : part.source ≠ [] := by
  cases part <;> simp [TemplatePart.source, stepOpening]

theorem drop_stepOpening (rest : List Char) : (stepOpening ++ rest).drop 7 = rest := rfl

theorem drop_resultClosing (rest : List Char) : (resultClosing ++ rest).drop 9 = rest := rfl

theorem of_templateMatch {text rest : List Char} {part : TemplatePart}
    (h : templateMatch env text = some (part, rest)) :
    part.IsPlaceholder env ∧ text = part.source ++ rest := by
  unfold templateMatch at h
  split at h
  · next starts =>
    obtain ⟨behind, rfl⟩ := List.isPrefixOf_iff_prefix.mp starts
    cases h
    exact ⟨trivial, rfl⟩
  · split at h
    · next starts =>
      obtain ⟨behind, rfl⟩ := List.isPrefixOf_iff_prefix.mp starts
      simp only [drop_stepOpening] at h
      obtain ⟨found, same⟩ := Option.ite_none_right_eq_some.mp h
      rw [Bool.and_eq_true, Bool.not_eq_true', List.isEmpty_eq_false_iff] at found
      obtain ⟨last, ends⟩ := List.isPrefixOf_iff_prefix.mp found.2
      rw [← ends, drop_resultClosing] at same
      cases same
      refine ⟨⟨found.1, fun c hc => ?_⟩, ?_⟩
      · exact List.all_eq_true.mp List.all_takeWhile c hc
      · rw [TemplatePart.source, List.append_assoc, List.append_assoc, ends,
          List.takeWhile_append_dropWhile]
    · cases h

theorem templateMatch_source (plain : env.PlainDigits) {part : TemplatePart}
    (placeholder : part.IsPlaceholder env) (rest : List Char) :
    templateMatch env (part.source ++ rest) = some (part, rest) := by
  cases part with
  | literal c => cases placeholder
  | input =>
    rw [templateMatch, if_pos (List.isPrefixOf_iff_prefix.mpr (List.prefix_append _ _))]
    rfl
  | result digits =>
    obtain ⟨some_, all⟩ := placeholder
    have cut : (digits ++ (resultClosing ++ rest)).takeWhile env.unicode.digit = digits ∧
        (digits ++ (resultClosing ++ rest)).dropWhile env.unicode.digit =
          resultClosing ++ rest := by
      rw [List.takeWhile_append_of_pos all, List.dropWhile_append_of_pos all]
      simp [resultClosing, plain.stop]
    have other : TemplatePart.input.source.isPrefixOf
        (stepOpening ++ (digits ++ (resultClosing ++ rest))) ≠ true := by
      simp [TemplatePart.source, stepOpening, List.isPrefixOf]
    rw [TemplatePart.source, List.append_assoc, List.append_assoc, templateMatch, if_neg other,
      if_pos (List.isPrefixOf_iff_prefix.mpr (List.prefix_append _ _))]
    simp only [drop_stepOpening, cut.1, cut.2, drop_resultClosing]
    rw [if_pos]
    rw [Bool.and_eq_true, Bool.not_eq_true', List.isEmpty_eq_false_iff]
    exact ⟨some_, List.isPrefixOf_iff_prefix.mpr (List.prefix_append _ _)⟩

/-- A placeholder has no brace to open it but its first two characters. -/
theorem source_shape (plain : env.PlainDigits) {part : TemplatePart}
    (placeholder : part.IsPlaceholder env) :
    ∃ tail, part.source = '{' :: '{' :: tail ∧ '{' ∉ tail ∧ tail ≠ [] := by
  cases part with
  | literal c => cases placeholder
  | input => exact ⟨_, rfl, by decide, by decide⟩
  | result digits =>
    refine ⟨['s', 't', 'e', 'p', '_'] ++ (digits ++ resultClosing), rfl, fun mem => ?_, by simp⟩
    rcases List.mem_append.mp mem with mem | mem
    · revert mem
      decide
    rcases List.mem_append.mp mem with mem | mem
    · have digit := placeholder.2 '{' mem
      rw [plain.brace] at digit
      cases digit
    · revert mem
      decide

/-- No placeholder begins inside another one. -/
theorem not_inside (plain : env.PlainDigits) {part other : TemplatePart}
    (placeholder : part.IsPlaceholder env) (placeholder' : other.IsPlaceholder env)
    {before within rest behind : List Char} (split : part.source = before ++ within)
    (later : before ≠ []) (inside : within ≠ [])
    (same : within ++ rest = other.source ++ behind) : False := by
  obtain ⟨tail, shape, once, some_⟩ := source_shape plain placeholder
  obtain ⟨tail', shape', -, -⟩ := source_shape plain placeholder'
  rw [shape] at split
  rw [shape'] at same
  cases before with
  | nil => exact later rfl
  | cons c before =>
    cases before with
    | nil =>
      -- the second brace, and no third one behind it
      obtain ⟨-, rfl⟩ := List.cons.inj split
      obtain ⟨d, more, rfl⟩ := List.exists_cons_of_ne_nil some_
      obtain ⟨-, same⟩ := List.cons.inj same
      obtain ⟨rfl, -⟩ := List.cons.inj same
      exact once List.mem_cons_self
    | cons c' before =>
      obtain ⟨-, split⟩ := List.cons.inj split
      obtain ⟨-, rfl⟩ := List.cons.inj split
      obtain ⟨d, more, rfl⟩ := List.exists_cons_of_ne_nil inside
      obtain ⟨rfl, -⟩ := List.cons.inj same
      exact once (List.mem_append_right _ List.mem_cons_self)

/-! ## Cutting a template -/

theorem nil_of_flatMap_source {parts : List TemplatePart}
    (h : parts.flatMap (·.source) = []) : parts = [] := by
  cases parts with
  | nil => rfl
  | cons part parts =>
    rw [List.flatMap_cons, List.append_eq_nil_iff] at h
    exact absurd h.1 (source_ne_nil part)

theorem CutAtPlaceholders.tail {part : TemplatePart} {parts : List TemplatePart}
    {text : List Char} (cut : CutAtPlaceholders env text (part :: parts)) :
    CutAtPlaceholders env (parts.flatMap (·.source)) parts where
  whole := rfl
  proper p hp := cut.proper p (List.mem_cons_of_mem part hp)
  all before q behind placeholder split := by
    obtain ⟨earlier, later, found, start, stop⟩ := cut.all (part.source ++ before) q behind
      placeholder (by rw [← cut.whole, List.flatMap_cons, split, List.append_assoc])
    cases earlier with
    | nil =>
      rw [List.flatMap_nil] at start
      exact absurd (List.append_eq_nil_iff.mp start.symm).1 (source_ne_nil part)
    | cons first earlier =>
      obtain ⟨rfl, rfl⟩ := List.cons.inj found
      rw [List.flatMap_cons] at start
      exact ⟨earlier, later, rfl, List.append_cancel_left start, stop⟩

/-- A placeholder at the head of the text is the first part. -/
theorem CutAtPlaceholders.head {part first : TemplatePart} {parts : List TemplatePart}
    {rest : List Char} (placeholder : part.IsPlaceholder env)
    (cut : CutAtPlaceholders env (part.source ++ rest) (first :: parts)) : first = part := by
  obtain ⟨earlier, later, found, start, -⟩ := cut.all [] part rest placeholder rfl
  rw [nil_of_flatMap_source start] at found
  exact (List.cons.inj found).1

/-- A part in front of a text that is cut, where no placeholder begins but the part. -/
theorem cut_cons {part : TemplatePart} {parts : List TemplatePart} {rest : List Char}
    (cut : CutAtPlaceholders env rest parts)
    (proper : (∃ c, part = .literal c) ∨ part.IsPlaceholder env)
    (head : ∀ (q : TemplatePart) behind, q.IsPlaceholder env →
      part.source ++ rest = q.source ++ behind → q = part ∧ behind = rest)
    (inside : ∀ before within (q : TemplatePart) behind, q.IsPlaceholder env →
      part.source = before ++ within → before ≠ [] → within ≠ [] →
      within ++ rest ≠ q.source ++ behind) :
    CutAtPlaceholders env (part.source ++ rest) (part :: parts) where
  whole := by rw [List.flatMap_cons, cut.whole]
  proper p hp := by
    rcases List.mem_cons.mp hp with rfl | hp
    · exact proper
    · exact cut.proper p hp
  all before q behind placeholder split := by
    rcases List.append_eq_append_iff.mp split with ⟨gap, rfl, same⟩ | ⟨within, source, same⟩
    · obtain ⟨earlier, later, rfl, start, stop⟩ := cut.all gap q behind placeholder same
      exact ⟨part :: earlier, later, rfl, by rw [List.flatMap_cons, start], stop⟩
    · by_cases atHead : before = []
      · subst atHead
        obtain ⟨rfl, rfl⟩ := head q behind placeholder split
        exact ⟨[], parts, rfl, rfl, cut.whole⟩
      · by_cases done : within = []
        · subst done
          obtain ⟨earlier, later, rfl, start, stop⟩ := cut.all [] q behind placeholder same.symm
          refine ⟨part :: earlier, later, rfl, ?_, stop⟩
          rw [List.flatMap_cons, start, source, List.append_nil, List.append_nil]
        · exact absurd same.symm (inside before within q behind placeholder source atHead done)

/-- The placeholders, for a scan of the template. -/
def placeholders (env : CronEnv) : Scan.Finder Char TemplatePart where
  find := templateMatch env
  source := TemplatePart.source
  splits found := (of_templateMatch found).2
  nonempty {_ part _} _ := source_ne_nil part

def partOf : Scan.Piece Char TemplatePart → TemplatePart
  | .plain c => .literal c
  | .found part => part

theorem cut_of_scan (plain : env.PlainDigits) {text : List Char}
    {pieces : List (Scan.Piece Char TemplatePart)}
    (scan : Scan.Cut (placeholders env) text pieces) :
    CutAtPlaceholders env text (pieces.map partOf) := by
  induction scan with
  | nil =>
    refine ⟨rfl, nofun, fun before q behind _ split => ?_⟩
    have empty := (List.append_eq_nil_iff.mp (List.append_eq_nil_iff.mp split.symm).2).1
    exact absurd empty (source_ne_nil q)
  | @plain c text pieces nothing _ cut =>
    refine @cut_cons _ (.literal c) _ _ cut (.inl ⟨c, rfl⟩) ?_ ?_
    · intro q behind placeholder split
      have starts := templateMatch_source plain placeholder behind
      rw [← split] at starts
      cases nothing.symm.trans starts
    · intro before within q behind _ source later inside _
      have long := congrArg List.length source
      rw [List.length_append] at long
      have one := List.length_pos_iff.mpr later
      have two := List.length_pos_iff.mpr inside
      have single : (TemplatePart.literal c).source.length = 1 := rfl
      omega
  | @found text rest part pieces finding _ cut =>
    obtain ⟨placeholder, split⟩ := of_templateMatch finding
    rw [split]
    refine cut_cons cut (.inr placeholder) ?_ ?_
    · intro q behind placeholder' same
      have here := templateMatch_source plain placeholder rest
      rw [same, templateMatch_source plain placeholder' behind, Option.some.injEq,
        Prod.mk.injEq] at here
      exact here
    · exact fun before within q behind placeholder' source later inside same =>
        not_inside plain placeholder placeholder' source later inside same

theorem exists_cut (plain : env.PlainDigits) (text : List Char) :
    ∃ parts, CutAtPlaceholders env text parts := by
  obtain ⟨pieces, scan⟩ := Scan.exists_cut (F := placeholders env) text
  exact ⟨_, cut_of_scan plain scan⟩

/-! ## Rendering -/

/-- A placeholder of a short text has a number that `int` takes. -/
theorem replace_eq {part : TemplatePart} (short : part.source.length ≤ 4000) :
    replace env initialInput stepResults part =
      some (part.substituted env initialInput stepResults) := by
  cases part with
  | literal c => rfl
  | input => rfl
  | result digits =>
    have few : digits.length ≤ 4300 := by
      simp only [TemplatePart.source, List.length_append] at short
      omega
    have number : env.int digits = some (TemplatePart.number env digits) := if_pos few
    rw [replace, number, TemplatePart.substituted, TemplatePart.value]
    cases found : stepResults[TemplatePart.number env digits]? with
    | none => simp [found]
    | some result => simp [found]

theorem renderFrom_isSome (fuel : Nat) : ∀ {text : List Char}, text.length ≤ 4000 →
    (renderFrom env initialInput stepResults fuel text).isSome := by
  induction fuel with
  | zero => exact fun _ => rfl
  | succ fuel ih =>
    intro text short
    cases text with
    | nil => rfl
    | cons c text =>
      rw [List.length_cons] at short
      cases found : templateMatch env (c :: text) with
      | none =>
        obtain ⟨rest, same⟩ := Option.isSome_iff_exists.mp (@ih text (by omega))
        simp [renderFrom, found, same]
      | some answer =>
        obtain ⟨part, rest⟩ := answer
        have long := congrArg List.length (of_templateMatch found).2
        rw [List.length_append, List.length_cons] at long
        obtain ⟨behind, same⟩ := Option.isSome_iff_exists.mp (@ih rest (by omega))
        have small : part.source.length ≤ 4000 := by omega
        simp [renderFrom, found, same, replace_eq small]

theorem renderFrom_cut (plain : env.PlainDigits) (parts : List TemplatePart) :
    ∀ {text : List Char} {fuel : Nat}, CutAtPlaceholders env text parts → text.length ≤ fuel →
      (∀ part ∈ parts, replace env initialInput stepResults part =
        some (part.substituted env initialInput stepResults)) →
      renderFrom env initialInput stepResults fuel text =
        some (parts.flatMap (·.substituted env initialInput stepResults)) := by
  induction parts with
  | nil =>
    intro text fuel cut _ _
    rw [← cut.whole]
    cases fuel <;> rfl
  | cons part parts ih =>
    intro text fuel cut enough values
    obtain rfl := cut.whole
    rw [List.flatMap_cons] at cut enough ⊢
    have one := List.length_pos_iff.mpr (source_ne_nil part)
    rw [List.length_append] at enough
    obtain ⟨fuel, rfl⟩ : ∃ n, fuel = n + 1 := ⟨fuel - 1, by omega⟩
    have rest := ih cut.tail (show _ ≤ fuel by omega)
      fun p hp => values p (List.mem_cons_of_mem part hp)
    have value := values part List.mem_cons_self
    rcases cut.proper part List.mem_cons_self with ⟨c, rfl⟩ | placeholder
    · have unmatched : templateMatch env (c :: parts.flatMap (·.source)) = none := by
        cases found : templateMatch env (c :: parts.flatMap (·.source)) with
        | none => rfl
        | some answer =>
          obtain ⟨q, behind⟩ := answer
          obtain ⟨placeholder, split⟩ := of_templateMatch found
          have cut' : CutAtPlaceholders env (q.source ++ behind) (.literal c :: parts) := by
            rw [← split]
            exact cut
          rw [← cut'.head placeholder] at placeholder
          cases placeholder
      show renderFrom env initialInput stepResults (fuel + 1) (c :: parts.flatMap (·.source)) = _
      simp only [renderFrom, unmatched, rest]
      rfl
    · obtain ⟨c, text, split⟩ := List.exists_cons_of_ne_nil (source_ne_nil part)
      have matched := templateMatch_source plain placeholder (parts.flatMap (·.source))
      rw [split, List.cons_append] at matched ⊢
      simp only [renderFrom, matched, value, rest]
      rfl

end

theorem renderTemplate_isSome {env : CronEnv} {initialInput : String}
    {stepResults : List (Option String)} {text : String} (short : text.length ≤ 4000) :
    (renderTemplate env initialInput stepResults text).isSome := by
  rw [renderTemplate, Option.isSome_map]
  exact renderFrom_isSome _ (by rwa [String.length_toList])

/-- The rendered text of a step, which is too short for `int` to raise. -/
def PipelineStep.rendered (env : CronEnv) (initialInput : String)
    (stepResults : List (Option String)) (step : PipelineStep) : String :=
  (renderTemplate env initialInput stepResults step.taskText).get
    (renderTemplate_isSome step.short)

/-- For every task text a step can have, every input and all results so far: the text can
be cut at its placeholders, and what is rendered is, for the parts of any such cut, the
values of those that can be resolved and the others as they stand, one after the other. -/
theorem render_is_substitution (env : CronEnv) (plain : env.PlainDigits)
    (initialInput : String) (stepResults : List (Option String)) (text : String)
    (short : text.length ≤ 4000) :
    (∃ parts, CutAtPlaceholders env text.toList parts) ∧
      ∀ parts, CutAtPlaceholders env text.toList parts →
        renderTemplate env initialInput stepResults text =
          some (String.ofList (parts.flatMap (·.substituted env initialInput stepResults))) := by
  refine ⟨exists_cut plain text.toList, fun parts cut => ?_⟩
  have values : ∀ part ∈ parts, replace env initialInput stepResults part =
      some (part.substituted env initialInput stepResults) := by
    intro part mem
    refine replace_eq (Nat.le_trans ?_ short)
    rw [← String.length_toList, ← cut.whole]
    exact (List.sublist_flatten_of_mem (List.mem_map_of_mem mem)).length_le
  rw [renderTemplate, renderFrom_cut plain parts cut (Nat.le_refl _) values]
  rfl

/-! ## A result with placeholders in it -/

theorem sampleCron_plainDigits : sampleCron.PlainDigits := ⟨by decide, by decide⟩

/-- The result of the first step is put in as it is, and the second has not run yet. -/
theorem result_not_expanded :
    renderTemplate sampleCron "tides" [some "\x7b\x7binput\x7d\x7d"]
        "\x7b\x7binput\x7d\x7d: \x7b\x7bstep_0.result\x7d\x7d\x7b\x7bstep_1.result\x7d\x7d" =
      some "tides: \x7b\x7binput\x7d\x7d\x7b\x7bstep_1.result\x7d\x7d" ∧
    ∃ parts, CutAtPlaceholders sampleCron "\x7b\x7bstep_0.result\x7d\x7d".toList parts ∧
      renderTemplate sampleCron "tides" [some "\x7b\x7binput\x7d\x7d"]
          "\x7b\x7bstep_0.result\x7d\x7d" =
        some (String.ofList
          (parts.flatMap (·.substituted sampleCron "tides" [some "\x7b\x7binput\x7d\x7d"]))) := by
  refine ⟨by decide +kernel, ?_⟩
  obtain ⟨⟨parts, cut⟩, rendered⟩ := render_is_substitution sampleCron sampleCron_plainDigits
    "tides" [some "\x7b\x7binput\x7d\x7d"] "\x7b\x7bstep_0.result\x7d\x7d" (by decide)
  exact ⟨parts, cut, rendered parts cut⟩

end LegionForge.Gateway
