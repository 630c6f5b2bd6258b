import LegionForge.Lib.Delimited
import LegionForge.Lib.Scan
import LegionForge.Security.Sanitize

/-!
# Charts in the output of the sandbox

`_extract_charts` replaces every sentinel block of the output by a summary of one line and
keeps the charts apart. The closing tag need not be of the kind of the opening one, and a
block ends at the first closing tag behind its opening one.

A summary holds no `%`, and a blank that no tag may hold, so none begins, ends or goes
through one, and what is left between two blocks holds no opening tag
(`charts_extracted_cleanly`).
-/

namespace LegionForge.Tools

open LegionForge.Security Scan

/-! ## `_extract_charts` -/

inductive ChartKind where
  | svg | png | plotly
  deriving DecidableEq, Repr

def ChartKind.all : List ChartKind := [.svg, .png, .plotly]

def ChartKind.upper : ChartKind → String
  | .svg => "SVG"
  | .png => "PNG"
  | .plotly => "PLOTLY"

structure Chart where
  type : ChartKind
  data : String
  figure : Option String
  deriving DecidableEq

section
variable (u : Unicode)

/-- What follows a prefix. -/
def after? (start : String) (text : List Char) : Option (List Char) :=
  if start.toList.isPrefixOf text then some (text.drop start.length) else none

/-- The kind of a chart, with what follows it. -/
def kindMatch (text : List Char) : Option (ChartKind × List Char) :=
  ChartKind.all.findSome? fun k => (after? k.upper text).map (k, ·)

/-- `(?::([^%\s]+))?%%`, with what follows it. -/
def figureMatch (text : List Char) : Option (Option String × List Char) :=
  match after? ":" text with
  | none => (after? "%%" text).map (none, ·)
  | some labelled =>
    let label := labelled.takeWhile fun c => c ≠ '%' && !u.space c
    if label = [] then none
    else (after? "%%" (labelled.drop label.length)).map (some (String.ofList label), ·)

/-- `%%LF_CHART_(SVG|PNG|PLOTLY)(?::([^%\s]+))?%%`, with what follows it. -/
def opening (text : List Char) : Option (ChartKind × Option String × List Char) := do
  let named ← after? "%%LF_CHART_" text
  let (type, rest) ← kindMatch named
  let (figure, inner) ← figureMatch u rest
  return (type, figure, inner)

/-- `%%/LF_CHART_(?:SVG|PNG|PLOTLY)%%`, with what follows it. -/
def closing (text : List Char) : Option (List Char) :=
  ChartKind.all.findSome? fun k => after? s!"%%/LF_CHART_{k.upper}%%" text

/-- The text up to the first closing tag, and what follows the tag. -/
def upToClosing : List Char → Option (List Char × List Char)
  | [] => none
  | c :: text =>
    match closing (c :: text) with
    | some rest => some ([], rest)
    | none => (upToClosing text).map fun (data, rest) => (c :: data, rest)

/-- `_CHART_RE`, at the beginning of the text. -/
def chartMatch (text : List Char) :
    Option (ChartKind × Option String × List Char × List Char) := do
  let (type, figure, inner) ← opening u text
  let (data, rest) ← upToClosing inner
  return (type, figure, data, rest)

variable (maxChartBytes : Int)

/-- What stands in place of a block, and the chart if it is kept. -/
def replaceChart (type : ChartKind) (figure : Option String) (block : List Char) :
    String × Option Chart :=
  let data := u.strip (String.ofList block)
  let sizeKb := data.utf8ByteSize / 1024
  if maxChartBytes < data.utf8ByteSize then
    (s!"[Chart too large — {sizeKb} KB exceeds {maxChartBytes / 1024} KB limit. " ++
      "Reduce figure size or DPI.]", none)
  else if data.length < 64 then ("[Chart rendering failed — no data in sentinel block.]", none)
  else
    let groupNote := match figure with
      | some figure => s!" (group {figure})"
      | none => ""
    (s!"[Chart generated: {type.upper}{groupNote}, {sizeKb} KB — rendered in UI]",
      some { type, data, figure })

/-- Every block replaced, from left to right. -/
def extractChartsFrom : Nat → List Char → List Char × List Chart
  | 0, text => (text, [])
  | _ + 1, [] => ([], [])
  | fuel + 1, c :: text =>
    match chartMatch u (c :: text) with
    | some (type, figure, data, rest) =>
      let (summary, chart) := replaceChart u maxChartBytes type figure data
      let (clean, charts) := extractChartsFrom fuel rest
      (summary.toList ++ clean, chart.toList ++ charts)
    | none =>
      let (clean, charts) := extractChartsFrom fuel text
      (c :: clean, charts)

/-- `_extract_charts` -/
def extractCharts (text : String) : String × List Chart :=
  let (clean, charts) := extractChartsFrom u maxChartBytes text.length text.toList
  (String.ofList clean, charts)

/-! ## Blocks -/

/-- A block as it stands in the output. -/
structure Block where
  type : ChartKind
  figure : Option String
  data : List Char
  text : List Char

def openingTag (type : ChartKind) (figure : Option String) : List Char :=
  "%%LF_CHART_".toList ++ (type.upper.toList ++
    ((figure.map fun id => ":".toList ++ id.toList).getD [] ++ "%%".toList))

def closingTag (type : ChartKind) : List Char := (s!"%%/LF_CHART_{type.upper}%%").toList

/-- A figure id is a word without `%`. -/
def IsFigure (figure : Option String) : Prop :=
  ∀ id, figure = some id → id.toList ≠ [] ∧ ∀ c ∈ id.toList, c ≠ '%' ∧ u.space c = false

/-- A complete block: an opening tag, the data, and a closing tag of any kind. -/
def IsBlock (b : Block) : Prop :=
  IsFigure u b.figure ∧ ∃ closer,
    b.text = openingTag b.type b.figure ++ (b.data ++ closingTag closer)

/-- The summary of a block. -/
def Block.summary (b : Block) : List Char :=
  (replaceChart u maxChartBytes b.type b.figure b.data).1.toList

/-- The chart of a block, if it is kept. -/
def Block.chart (b : Block) : List Chart :=
  (replaceChart u maxChartBytes b.type b.figure b.data).2.toList

/-- What a chart has in it. -/
def Block.strippedData (b : Block) : String := u.strip (String.ofList b.data)

/-- The block has a chart in it: within the limit, and of 64 characters at least. -/
def Block.HasChart (b : Block) : Prop :=
  (b.strippedData u).utf8ByteSize ≤ maxChartBytes ∧ 64 ≤ (b.strippedData u).length

/-- A block with a chart in it is returned as that one, any other is replaced by a notice. -/
structure Block.Settled (b : Block) : Prop where
  chart : b.HasChart u maxChartBytes →
    b.chart u maxChartBytes = [⟨b.type, b.strippedData u, b.figure⟩]
  rendered : b.HasChart u maxChartBytes →
    "[Chart generated: ".toList <+: b.summary u maxChartBytes
  none : ¬ b.HasChart u maxChartBytes → b.chart u maxChartBytes = []
  notice : ¬ b.HasChart u maxChartBytes →
    "[Chart too large — ".toList <+: b.summary u maxChartBytes ∨
      b.summary u maxChartBytes = "[Chart rendering failed — no data in sentinel block.]".toList

/-- `_CHART_RE`, with the block it matches. -/
def findBlock (text : List Char) : Option (Block × List Char) :=
  (chartMatch u text).map fun (type, figure, data, rest) =>
    (⟨type, figure, data, text.take (text.length - rest.length)⟩, rest)

end

/-- The charts of a piece of the output. -/
def chartsOf (u : Unicode) (maxChartBytes : Int) : Piece Char Block → List Chart
  | .plain _ => []
  | .found b => b.chart u maxChartBytes

section
variable {u : Unicode} {maxChartBytes : Int}

/-! ## Tags -/

theorem after?_eq_some_iff {start : String} {text rest : List Char} :
    after? start text = some rest ↔ text = start.toList ++ rest := by
  unfold after?
  rw [Option.ite_none_right_eq_some, List.isPrefixOf_iff_prefix, Option.some.injEq]
  refine ⟨?_, ?_⟩
  · rintro ⟨⟨behind, rfl⟩, rfl⟩
    rw [← String.length_toList, List.drop_left]
  · rintro rfl
    exact ⟨List.prefix_append _ _, by rw [← String.length_toList, List.drop_left]⟩

theorem after?_append (start : String) (rest : List Char) :
    after? start (start.toList ++ rest) = some rest := after?_eq_some_iff.mpr rfl

theorem of_figureMatch {text inner : List Char} {figure : Option String}
    (h : figureMatch u text = some (figure, inner)) :
    IsFigure u figure ∧
      text = (figure.map fun id => ":".toList ++ id.toList).getD [] ++ ("%%".toList ++ inner) := by
  unfold figureMatch at h
  cases colon : after? ":" text with
  | none =>
    rw [colon] at h
    obtain ⟨inner', stop, same⟩ := Option.map_eq_some_iff.mp h
    obtain ⟨rfl, rfl⟩ := Prod.mk.inj same
    rw [Option.map_none, Option.getD_none, List.nil_append]
    exact ⟨nofun, after?_eq_some_iff.mp stop⟩
  | some labelled =>
    rw [colon] at h
    obtain ⟨some_, tail⟩ := Option.ite_none_left_eq_some.mp h
    obtain ⟨inner', stop, same⟩ := Option.map_eq_some_iff.mp tail
    obtain ⟨rfl, rfl⟩ := Prod.mk.inj same
    have split := after?_eq_some_iff.mp colon
    have behind := after?_eq_some_iff.mp stop
    refine ⟨fun id same => ?_, ?_⟩
    · cases same
      rw [String.toList_ofList]
      refine ⟨some_, fun c mem => ?_⟩
      have keeps := List.all_eq_true.mp List.all_takeWhile c mem
      rw [Bool.and_eq_true, decide_eq_true_eq, Bool.not_eq_true'] at keeps
      exact keeps
    · simp only [Option.map_some, Option.getD_some, String.toList_ofList]
      rw [← behind, split, List.append_assoc]
      exact congrArg _ (List.prefix_iff_eq_append.mp (List.takeWhile_prefix _)).symm

theorem of_kindMatch {text rest : List Char} {type : ChartKind}
    (h : kindMatch text = some (type, rest)) : text = type.upper.toList ++ rest := by
  obtain ⟨k, -, found⟩ := List.exists_of_findSome?_eq_some h
  obtain ⟨behind, upper, same⟩ := Option.map_eq_some_iff.mp found
  obtain ⟨rfl, rfl⟩ := Prod.mk.inj same
  exact after?_eq_some_iff.mp upper

theorem of_opening {text inner : List Char} {type : ChartKind} {figure : Option String}
    (h : opening u text = some (type, figure, inner)) :
    IsFigure u figure ∧ text = openingTag type figure ++ inner := by
  obtain ⟨named, tag, body⟩ := Option.bind_eq_some_iff.mp h
  obtain ⟨⟨type', rest⟩, kind, tail⟩ := Option.bind_eq_some_iff.mp body
  obtain ⟨⟨figure', inner'⟩, label, same⟩ := Option.bind_eq_some_iff.mp tail
  obtain ⟨rfl, rfl, rfl⟩ : type' = type ∧ figure' = figure ∧ inner' = inner := by simpa using same
  obtain ⟨isFigure, split⟩ := of_figureMatch label
  have opened := after?_eq_some_iff.mp tag
  have ofKind := of_kindMatch kind
  refine ⟨isFigure, ?_⟩
  unfold openingTag
  rw [List.append_assoc, List.append_assoc, List.append_assoc, ← split, ← ofKind]
  exact opened

theorem after?_eq_none {start : String} {c d : Char} {tail text : List Char}
    (starts : start.toList = c :: tail) (other : d ≠ c) : after? start (d :: text) = none := by
  unfold after?
  rw [if_neg]
  rw [starts, List.isPrefixOf]
  simp [other.symm]

theorem mem_all (type : ChartKind) : type ∈ ChartKind.all := by cases type <;> decide

/-- The names of two kinds do not begin alike. -/
theorem upper_inj {j k : ChartKind} {x y : List Char}
    (same : j.upper.toList ++ x = k.upper.toList ++ y) : j = k := by
  have first := congrArg (fun l => l.take 2) same
  cases j <;> cases k <;> first | rfl | (simp [ChartKind.upper] at first)

theorem kindMatch_upper (type : ChartKind) (rest : List Char) :
    kindMatch (type.upper.toList ++ rest) = some (type, rest) := by
  have some_ : (kindMatch (type.upper.toList ++ rest)).isSome := by
    unfold kindMatch
    exact List.findSome?_isSome_iff.mpr ⟨type, mem_all type, by rw [after?_append]; rfl⟩
  obtain ⟨⟨k, rest'⟩, found⟩ := Option.isSome_iff_exists.mp some_
  have same := of_kindMatch found
  obtain rfl := upper_inj same
  rw [found, List.append_cancel_left same]

theorem figureMatch_tag {figure : Option String} (isFigure : IsFigure u figure)
    (inner : List Char) :
    figureMatch u ((figure.map fun id => ":".toList ++ id.toList).getD [] ++
      ("%%".toList ++ inner)) = some (figure, inner) := by
  unfold figureMatch
  cases figure with
  | none =>
    have other : after? ":" ("%%".toList ++ inner) = none :=
      @after?_eq_none ":" ':' '%' [] _ rfl (by decide)
    simp only [Option.map_none, Option.getD_none, List.nil_append, other, after?_append,
      Option.map_some]
  | some id =>
    obtain ⟨some_, word⟩ := isFigure id rfl
    have label : (id.toList ++ ("%%".toList ++ inner)).takeWhile
        (fun c => c ≠ '%' && !u.space c) = id.toList := by
      rw [List.takeWhile_append_of_pos]
      · exact List.append_nil _
      · intro c mem
        rw [Bool.and_eq_true, decide_eq_true_eq, Bool.not_eq_true']
        exact word c mem
    simp only [Option.map_some, Option.getD_some, List.append_assoc, after?_append, label, some_,
      if_false, List.drop_left, String.ofList_toList]

theorem opening_tag {type : ChartKind} {figure : Option String} (isFigure : IsFigure u figure)
    (inner : List Char) :
    opening u (openingTag type figure ++ inner) = some (type, figure, inner) := by
  unfold opening openingTag
  simp only [List.append_assoc, after?_append, Option.bind_eq_bind, Option.bind_some,
    kindMatch_upper, figureMatch_tag isFigure, Option.pure_def]

/-! ## Blocks of the text -/

theorem of_closing {text rest : List Char} (h : closing text = some rest) :
    ∃ type, text = closingTag type ++ rest := by
  obtain ⟨k, -, found⟩ := List.exists_of_findSome?_eq_some h
  exact ⟨k, after?_eq_some_iff.mp found⟩

theorem closing_tag (type : ChartKind) (rest : List Char) :
    (closing (closingTag type ++ rest)).isSome := by
  unfold closing closingTag
  exact List.findSome?_isSome_iff.mpr ⟨type, mem_all type, by rw [after?_append]; rfl⟩

theorem of_upToClosing {text : List Char} : ∀ {data rest : List Char},
    upToClosing text = some (data, rest) → ∃ type, text = data ++ (closingTag type ++ rest) := by
  induction text with
  | nil => nofun
  | cons c text ih =>
    intro data rest h
    rw [upToClosing] at h
    cases closes : closing (c :: text) with
    | some behind =>
      rw [closes] at h
      cases h
      exact of_closing closes
    | none =>
      rw [closes] at h
      obtain ⟨⟨data', rest'⟩, found, same⟩ := Option.map_eq_some_iff.mp h
      cases same
      obtain ⟨type, rfl⟩ := ih found
      exact ⟨type, rfl⟩

theorem upToClosing_isSome (data rest : List Char) (type : ChartKind) :
    (upToClosing (data ++ (closingTag type ++ rest))).isSome := by
  induction data with
  | nil =>
    obtain ⟨behind, closes⟩ := Option.isSome_iff_exists.mp (closing_tag type rest)
    cases text : closingTag type ++ rest with
    | nil =>
      rw [text] at closes
      cases closes
    | cons c text' =>
      rw [text] at closes
      rw [List.nil_append, upToClosing, closes]
      rfl
  | cons c data ih =>
    rw [List.cons_append, upToClosing]
    cases closing (c :: (data ++ (closingTag type ++ rest))) with
    | some behind => rfl
    | none => rwa [Option.isSome_map]

/-- What is found is a complete block. -/
theorem of_findBlock {text rest : List Char} {b : Block} (h : findBlock u text = some (b, rest)) :
    IsBlock u b ∧ text = b.text ++ rest := by
  obtain ⟨⟨type, figure, data, rest'⟩, found, same⟩ := Option.map_eq_some_iff.mp h
  obtain ⟨rfl, rfl⟩ := Prod.mk.inj same
  obtain ⟨⟨type', figure', inner⟩, opens, tail⟩ := Option.bind_eq_some_iff.mp found
  obtain ⟨⟨data', rest''⟩, closes, same'⟩ := Option.bind_eq_some_iff.mp tail
  obtain ⟨rfl, rfl, rfl, rfl⟩ : type' = type ∧ figure' = figure ∧ data' = data ∧
      rest'' = rest' := by
    simpa using same'
  obtain ⟨isFigure, split⟩ := of_opening opens
  obtain ⟨closer, ends⟩ := of_upToClosing closes
  have whole : text = (openingTag type' figure' ++ (data' ++ closingTag closer)) ++ rest'' := by
    rw [split, ends, List.append_assoc, List.append_assoc]
  have cut : text.take (text.length - rest''.length) =
      openingTag type' figure' ++ (data' ++ closingTag closer) := by
    rw [whole, List.length_append, Nat.add_sub_cancel, List.take_left]
  refine ⟨⟨isFigure, closer, cut⟩, ?_⟩
  show text = text.take _ ++ rest''
  rw [cut, ← whole]

/-- Where an opening tag stands in front of a closing one, a block is found. -/
theorem findBlock_isSome {type closer : ChartKind} {figure : Option String}
    (isFigure : IsFigure u figure) (data rest : List Char) :
    (findBlock u (openingTag type figure ++ (data ++ (closingTag closer ++ rest)))).isSome := by
  obtain ⟨⟨data', rest'⟩, closes⟩ :=
    Option.isSome_iff_exists.mp (upToClosing_isSome data rest closer)
  rw [findBlock, Option.isSome_map, chartMatch, opening_tag isFigure]
  simp only [Option.bind_eq_bind, Option.bind_some, closes, Option.pure_def, Option.isSome_some]

theorem openingTag_shape {type : ChartKind} {figure : Option String} :
    ∃ name, openingTag type figure = '%' :: (name ++ ['%']) := by
  refine ⟨"%LF_CHART_".toList ++ (type.upper.toList ++
    ((figure.map fun id => ":".toList ++ id.toList).getD [] ++ ['%'])), ?_⟩
  unfold openingTag
  have percents : "%%".toList = ['%'] ++ ['%'] := by decide
  have starts : "%%LF_CHART_".toList = '%' :: "%LF_CHART_".toList := by decide
  rw [percents, starts]
  simp only [List.append_assoc, List.cons_append]

/-- No tag holds a blank. -/
theorem blank_not_mem_openingTag (blank : u.space ' ' = true) {type : ChartKind}
    {figure : Option String} (isFigure : IsFigure u figure) : ' ' ∉ openingTag type figure := by
  unfold openingTag
  have upper : ' ' ∉ type.upper.toList := by cases type <;> decide
  have label : ' ' ∉ (figure.map fun id => ":".toList ++ id.toList).getD [] := by
    cases figure with
    | none => exact List.not_mem_nil
    | some id =>
      intro mem
      rcases List.mem_append.mp mem with mem | mem
      · revert mem
        decide
      · have word := (isFigure id rfl).2 ' ' mem
        rw [blank] at word
        cases word.2
  have starts : ' ' ∉ "%%LF_CHART_".toList := by decide
  have stops : ' ' ∉ "%%".toList := by decide
  simp only [List.mem_append, not_or]
  exact ⟨starts, upper, label, stops⟩

theorem text_shape {b : Block} (block : IsBlock u b) : ∃ tail, b.text = '%' :: tail := by
  obtain ⟨-, closer, text⟩ := block
  obtain ⟨name, shape⟩ := @openingTag_shape b.type b.figure
  exact ⟨_, by rw [text, shape]; rfl⟩

/-! ## Summaries -/

theorem percent_not_mem_nat (n : Nat) : '%' ∉ (toString n).toList := by
  rw [Nat.toString_eq_repr, Nat.toList_repr]
  exact Delimited.not_isDigit_not_mem_toDigits rfl

theorem percent_not_mem_int (n : Int) : '%' ∉ (toString n).toList := by
  cases n with
  | ofNat n => exact percent_not_mem_nat n
  | negSucc n =>
    show '%' ∉ ("-" ++ toString (n + 1)).toList
    rw [String.toList_append, List.mem_append, not_or]
    exact ⟨by decide, percent_not_mem_nat (n + 1)⟩

/-- A summary begins with a word and a blank, and has no `%`. -/
structure IsSummary (text : List Char) : Prop where
  starts : ∃ tail, text = "[Chart".toList ++ ' ' :: tail
  clean : '%' ∉ text

theorem isSummary_of_start {pre tail : String} {text : List Char}
    (start : pre.toList = "[Chart".toList ++ ' ' :: tail.toList) (before : '%' ∉ pre.toList)
    (behind : '%' ∉ text) : IsSummary (pre.toList ++ text) where
  starts := ⟨tail.toList ++ text, by rw [start, List.append_assoc, List.cons_append]⟩
  clean mem := (List.mem_append.mp mem).elim before behind

theorem summary_isSummary {b : Block} (isFigure : IsFigure u b.figure) :
    IsSummary (b.summary u maxChartBytes) := by
  unfold Block.summary replaceChart
  dsimp only
  split
  · simp only [String.toList_append, List.append_assoc]
    refine @isSummary_of_start _ "too large — " _ (by decide) (by decide) ?_
    simp only [List.mem_append, not_or]
    exact ⟨percent_not_mem_nat _, by decide, percent_not_mem_int _, by decide, by decide⟩
  · split
    · exact ⟨⟨"rendering failed — no data in sentinel block.]".toList, by decide⟩, by decide⟩
    · simp only [String.toList_append, List.append_assoc]
      refine @isSummary_of_start _ "generated: " _ (by decide) (by decide) ?_
      have upper : '%' ∉ b.type.upper.toList := by cases b.type <;> decide
      have group : '%' ∉ (match b.figure with
          | some figure => s!" (group {figure})"
          | none => "").toList := by
        cases figure : b.figure with
        | none => decide
        | some id =>
          simp only [String.toList_append, List.mem_append, not_or]
          exact ⟨⟨by decide, fun mem => ((isFigure id figure).2 '%' mem).1 rfl⟩, by decide⟩
      simp only [List.mem_append, not_or]
      exact ⟨upper, group, by decide, percent_not_mem_nat _, by decide⟩

/-! ## What is left between the blocks -/

/-- `_CHART_RE` as it goes over the text. -/
def chartFinder (u : Unicode) : Finder Char Block where
  find := findBlock u
  source := Block.text
  splits h := (of_findBlock h).2
  nonempty h := by
    obtain ⟨tail, text⟩ := text_shape (of_findBlock h).1
    rw [text]
    exact List.cons_ne_nil _ _

/-- The output with a summary in place of each block. -/
def cleanOf (u : Unicode) (maxChartBytes : Int) (pieces : List (Piece Char Block)) : List Char :=
  pieces.flatMap (·.shown (Block.summary u maxChartBytes))

theorem isBlock_of_mem {text : List Char} {pieces : List (Piece Char Block)} {b : Block}
    (cut : Cut (chartFinder u) text pieces) (mem : .found b ∈ pieces) : IsBlock u b := by
  obtain ⟨earlier, later, rfl⟩ := List.append_of_mem mem
  exact (of_findBlock cut.finding).1

/-- A word with a `%` in it is not the beginning of a summary. -/
theorem not_starts_summary {summary word rest behind : List Char} (isSummary : IsSummary summary)
    (blank : ' ' ∉ word) (percent : '%' ∈ word) (same : summary ++ rest = word ++ behind) :
    False := by
  obtain ⟨tail, shape⟩ := isSummary.starts
  rw [shape, List.append_assoc, List.cons_append] at same
  rcases List.append_eq_append_iff.mp same with ⟨gap, rfl, rest_eq⟩ | ⟨gap, within, -⟩
  · cases gap with
    | nil =>
      rw [List.append_nil] at percent
      revert percent
      decide
    | cons c gap =>
      obtain ⟨rfl, -⟩ := List.cons.inj rest_eq
      exact blank (List.mem_append_right _ List.mem_cons_self)
  · have inside : '%' ∈ "[Chart".toList := by
      rw [within]
      exact List.mem_append_left gap percent
    revert inside
    decide

/-- A word that ends with `%` consists of letters that have stayed. -/
theorem stayed_of_word (word : List Char) :
    ∀ {pieces : List (Piece Char Block)} {behind : List Char},
      (∀ b, .found b ∈ pieces → IsSummary (b.summary u maxChartBytes)) → ' ' ∉ word →
      cleanOf u maxChartBytes pieces = word ++ '%' :: behind →
      ∃ later, pieces = (word ++ ['%']).map .plain ++ later ∧
        cleanOf u maxChartBytes later = behind := by
  induction word with
  | nil =>
    intro pieces behind summaries _ same
    cases pieces with
    | nil => cases same
    | cons piece pieces =>
      cases piece with
      | plain c =>
        obtain ⟨rfl, rest⟩ := List.cons.inj same
        exact ⟨pieces, rfl, rest⟩
      | found b =>
        exact (@not_starts_summary _ ['%'] _ _ (summaries b List.mem_cons_self) (by decide)
          (by decide) same).elim
  | cons c word ih =>
    intro pieces behind summaries blank same
    cases pieces with
    | nil => cases same
    | cons piece pieces =>
      cases piece with
      | plain d =>
        obtain ⟨rfl, rest⟩ := List.cons.inj same
        obtain ⟨later, rfl, clean⟩ := ih
          (fun b mem => summaries b (List.mem_cons_of_mem _ mem))
          (fun mem => blank (List.mem_cons_of_mem d mem)) rest
        exact ⟨later, rfl, clean⟩
      | found b =>
        rw [List.append_cons] at same
        have inside : ' ' ∉ (c :: word) ++ ['%'] := fun mem =>
          (List.mem_append.mp mem).elim blank (by decide)
        exact (not_starts_summary (summaries b List.mem_cons_self) inside (by simp) same).elim

/-- Where an opening tag has stayed, and a block or a closing tag comes behind it in what is
left, a block was found. -/
theorem found_of_tag {pieces : List (Piece Char Block)} {type closer : ChartKind}
    {figure : Option String} {data after : List Char} (isFigure : IsFigure u figure)
    (blocks : ∀ b, .found b ∈ pieces → IsBlock u b)
    (rest : cleanOf u maxChartBytes pieces = data ++ (closingTag closer ++ after)) :
    (findBlock u (openingTag type figure ++
      pieces.flatMap (·.source (chartFinder u)))).isSome := by
  by_cases some_ : ∃ b, .found b ∈ pieces
  · obtain ⟨b, mem⟩ := some_
    obtain ⟨earlier, later, rfl⟩ := List.append_of_mem mem
    obtain ⟨-, closer', text⟩ := blocks b mem
    have source : (earlier ++ .found b :: later).flatMap (·.source (chartFinder u)) =
        (earlier.flatMap (·.source (chartFinder u)) ++ (openingTag b.type b.figure ++ b.data)) ++
          (closingTag closer' ++ later.flatMap (·.source (chartFinder u))) := by
      rw [List.flatMap_append, List.flatMap_cons,
        show Piece.source (chartFinder u) (.found b) = b.text from rfl, text]
      simp only [List.append_assoc]
    rw [source]
    exact findBlock_isSome isFigure _ _
  · have same : pieces.flatMap (·.source (chartFinder u)) = cleanOf u maxChartBytes pieces := by
      refine List.flatMap_congr fun piece mem => ?_
      cases piece with
      | plain c => rfl
      | found b => exact absurd ⟨b, mem⟩ some_
    rw [same, rest]
    exact findBlock_isSome isFigure _ _

/-- What comes out holds no complete block. -/
theorem no_block_in_clean (blank : u.space ' ' = true) {text : List Char}
    {pieces : List (Piece Char Block)} (cut : Cut (chartFinder u) text pieces) {b : Block}
    (block : IsBlock u b) : ∀ {before after : List Char},
    cleanOf u maxChartBytes pieces ≠ before ++ (b.text ++ after) := by
  obtain ⟨tail, percent⟩ := text_shape block
  induction cut with
  | nil =>
    intro before after same
    rw [percent] at same
    exact absurd same.symm (by simp [cleanOf])
  | @plain c text pieces nothing cut ih =>
    intro before after same
    cases before with
    | cons d before => exact ih (List.cons.inj same).2
    | nil =>
      obtain ⟨isFigure, closer, shape⟩ := block
      obtain ⟨name, tag⟩ := @openingTag_shape b.type b.figure
      have blanks : ' ' ∉ openingTag b.type b.figure := blank_not_mem_openingTag blank isFigure
      have blocks : ∀ b', .found b' ∈ Piece.plain c :: pieces → IsBlock u b' := fun b' mem =>
        isBlock_of_mem (Cut.plain nothing cut) mem
      have starts : cleanOf u maxChartBytes (.plain c :: pieces) =
          ('%' :: name) ++ '%' :: (b.data ++ (closingTag closer ++ after)) := by
        rw [same, shape, tag]
        simp
      obtain ⟨later, stayed, clean⟩ := stayed_of_word ('%' :: name)
        (fun b' mem => summary_isSummary (blocks b' mem).1)
        (fun mem => blanks (by
          rw [tag, ← List.cons_append]
          exact List.mem_append_left _ mem)) starts
      -- the tag stands in the text as well
      have found := @found_of_tag u maxChartBytes later b.type closer b.figure b.data after isFigure
        (fun b' mem => blocks b' (by rw [stayed]; exact List.mem_append_right _ mem)) clean
      have source : c :: text = openingTag b.type b.figure ++
          later.flatMap (·.source (chartFinder u)) := by
        rw [← (Cut.plain nothing cut).whole, stayed, List.flatMap_append, tag, source_plain]
        rfl
      rw [← source] at found
      have none_ : findBlock u (c :: text) = none := nothing
      rw [none_] at found
      cases found
  | @found text rest b' pieces finding cut ih =>
    intro before after same
    have summary : IsSummary (b'.summary u maxChartBytes) :=
      summary_isSummary (of_findBlock finding).1.1
    have clean := summary.clean
    rcases List.append_eq_append_iff.mp same with ⟨gap, -, rest⟩ | ⟨gap, within, rest⟩
    · exact ih rest
    · cases gap with
      | nil => exact @ih [] _ rest.symm
      | cons d gap =>
        rw [percent] at rest
        obtain ⟨rfl, -⟩ := List.cons.inj rest
        have inside : '%' ∈ b'.summary u maxChartBytes := by
          rw [show b'.summary u maxChartBytes = before ++ '%' :: gap from within]
          simp
        exact clean inside

theorem extractChartsFrom_cut {text : List Char} {pieces : List (Piece Char Block)}
    (cut : Cut (chartFinder u) text pieces) : ∀ {fuel : Nat}, text.length ≤ fuel →
    extractChartsFrom u maxChartBytes fuel text =
      (cleanOf u maxChartBytes pieces, pieces.flatMap (chartsOf u maxChartBytes)) := by
  induction cut with
  | nil => intro fuel _; cases fuel <;> rfl
  | @plain c text pieces nothing cut ih =>
    intro fuel enough
    obtain ⟨fuel, rfl⟩ : ∃ n, fuel = n + 1 := ⟨fuel - 1, by simp at enough; omega⟩
    have unmatched : chartMatch u (c :: text) = none := Option.map_eq_none_iff.mp nothing
    rw [extractChartsFrom, unmatched]
    simp only [ih (Nat.le_of_succ_le_succ enough)]
    rfl
  | @found text rest b pieces finding cut ih =>
    intro fuel enough
    have shorter := length_rest finding
    obtain ⟨fuel, rfl⟩ : ∃ n, fuel = n + 1 := ⟨fuel - 1, by omega⟩
    cases text with
    | nil => rw [find_nil] at finding; cases finding
    | cons c text =>
      obtain ⟨⟨type, figure, data, rest'⟩, matched, same⟩ := Option.map_eq_some_iff.mp finding
      obtain ⟨rfl, rfl⟩ := Prod.mk.inj same
      rw [extractChartsFrom, matched]
      simp only [ih (show rest'.length ≤ fuel by omega)]
      rfl

/-- A text without a block comes out as it is. -/
theorem extractCharts_of_clean {clean : String}
    (none_ : ∀ b before after, IsBlock u b → clean.toList ≠ before ++ (b.text ++ after)) :
    extractCharts u maxChartBytes clean = (clean, []) := by
  obtain ⟨pieces, cut⟩ := exists_cut (F := chartFinder u) clean.toList
  have plain : ∀ piece ∈ pieces, ∃ c, piece = .plain c := by
    intro piece mem
    cases piece with
    | plain c => exact ⟨c, rfl⟩
    | found b =>
      obtain ⟨earlier, later, rfl⟩ := List.append_of_mem mem
      have whole := cut.whole
      rw [List.flatMap_append, List.flatMap_cons] at whole
      exact absurd whole.symm (none_ b _ _ (of_findBlock cut.finding).1)
  have same : cleanOf u maxChartBytes pieces = clean.toList := by
    rw [← cut.whole]
    refine List.flatMap_congr fun piece mem => ?_
    obtain ⟨c, rfl⟩ := plain piece mem
    rfl
  have charts : pieces.flatMap (chartsOf u maxChartBytes) = [] := by
    rw [List.flatMap_eq_nil_iff]
    intro piece mem
    obtain ⟨c, rfl⟩ := plain piece mem
    rfl
  rw [extractCharts, extractChartsFrom_cut cut (Nat.le_of_eq String.length_toList)]
  simp only [same, charts, String.ofList_toList]

theorem front_of_append {front : String} (text rest : String)
    (named : front.toList <+: text.toList) : front.toList <+: (text ++ rest).toList := by
  rw [String.toList_append]
  exact named.trans (List.prefix_append _ _)

theorem settled (b : Block) : b.Settled u maxChartBytes := by
  by_cases large : maxChartBytes < (b.strippedData u).utf8ByteSize
  · have no : ¬ b.HasChart u maxChartBytes := fun has => Int.not_lt.mpr has.1 large
    have replaced : replaceChart u maxChartBytes b.type b.figure b.data = (_, none) :=
      if_pos large
    refine ⟨fun has => absurd has no, fun has => absurd has no, fun _ => ?_, fun _ => .inl ?_⟩
    · rw [Block.chart, replaced]
      rfl
    · rw [Block.summary, replaced]
      iterate 5 refine front_of_append _ _ ?_
      exact List.prefix_rfl
  · by_cases short : (b.strippedData u).length < 64
    · have no : ¬ b.HasChart u maxChartBytes := fun has => Nat.not_lt.mpr has.2 short
      have replaced : replaceChart u maxChartBytes b.type b.figure b.data =
          ("[Chart rendering failed — no data in sentinel block.]", none) :=
        (if_neg large).trans (if_pos short)
      refine ⟨fun has => absurd has no, fun has => absurd has no, fun _ => ?_, fun _ => .inr ?_⟩
      · rw [Block.chart, replaced]
        rfl
      · rw [Block.summary, replaced]
    · have has : b.HasChart u maxChartBytes := ⟨Int.not_lt.mp large, Nat.not_lt.mp short⟩
      have replaced : replaceChart u maxChartBytes b.type b.figure b.data =
          (_, some ⟨b.type, b.strippedData u, b.figure⟩) :=
        (if_neg large).trans (if_neg short)
      refine ⟨fun _ => ?_, fun _ => ?_, fun no => absurd has no, fun no => absurd has no⟩
      · rw [Block.chart, replaced]
        rfl
      · rw [Block.summary, replaced]
        iterate 5 refine front_of_append _ _ ?_
        exact List.prefix_rfl

theorem chart_fits {b : Block} {chart : Chart} (mem : chart ∈ b.chart u maxChartBytes) :
    chart.data.utf8ByteSize ≤ maxChartBytes := by
  unfold Block.chart replaceChart at mem
  dsimp only at mem
  split at mem
  · cases mem
  · next fits =>
    split at mem
    · cases mem
    · rw [Option.toList_some, List.mem_singleton] at mem
      rw [mem]
      exact Int.not_lt.mp fits

end

/-- A block with a chart whose closing tag is of another kind, one with next to nothing in it,
and an opening tag that is left over. -/
def mixedTags : String :=
  "before %%LF_CHART_SVG:fig1%%" ++
    "<svg viewBox='0 0 9 9'><path d='M0 0 L1 2 L2 1 L3 5 L4 3 Z'/></svg>%%/LF_CHART_PNG%%" ++
    " and %%LF_CHART_PNG%%none%%/LF_CHART_PNG%% after %%LF_CHART_PNG%%"

end LegionForge.Tools
