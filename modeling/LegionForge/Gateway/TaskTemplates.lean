import LegionForge.Lib.Delimited
import LegionForge.Lib.Scan
import Mathlib.Data.List.Induction
import Mathlib.Data.List.Nodup
import Mathlib.Data.List.Perm.Basic

/-!
# Filling in a task template

`run_template` replaces one variable after the other, each in what the ones before it have
left. So a value that reads like a placeholder is filled in itself, if its variable comes
later, and the result depends on the order in which the client names the variables.

`fillMarked` is the same loop on letters that remember whether they came from a value.
`filledApart_iff` says when the loop is the substitution it is meant to be (`Independent`):
where the template can be cut at its placeholders so that, whichever variables have been
filled in, a scan for another one finds its placeholders and nothing else.
-/

namespace LegionForge.Gateway

open Scan (Cut Finder Piece Silent literal literal_find literal_found literal_head)

/-! ## The loop -/

/-- A variable of the request, with its value. -/
abbrev Variable := String × String

/-- `f"{{{var_name}}}"` -/
def placeholder (name : String) : List Char := '{' :: (name.toList ++ ['}'])

theorem placeholder_ne_nil (name : String) : placeholder name ≠ [] := List.cons_ne_nil _ _

/-- `input_text.replace(f"{{{var_name}}}", var_value)` -/
def replaceVar (text : List Char) (v : Variable) : List Char :=
  (literal id (placeholder v.1) (placeholder_ne_nil v.1)).sub (fun _ => v.2.toList) text.length text

/-- The input of `run_template`, of the items of `variables` in their order. -/
def fillTemplate (template : String) (vars : List Variable) : String :=
  String.ofList (vars.foldl replaceVar template.toList)

/-- The body of the request: `variables` is a dict. -/
structure TemplateRun where
  vars : List Variable
  keys : (vars.map Prod.fst).Nodup

/-! ## Where a letter came from -/

/-- A letter of the text in the works, and whether a value has brought it. -/
abbrev Letter := Char × Bool

def ofTemplate (text : List Char) : List Letter := text.map fun c => (c, false)

def ofValue (text : List Char) : List Letter := text.map fun c => (c, true)

/-- The search for a variable's placeholder. -/
def searchFor (v : Variable) : Finder Letter (List Letter) :=
  literal Prod.fst (placeholder v.1) (placeholder_ne_nil v.1)

def replaceMarked (text : List Letter) (v : Variable) : List Letter :=
  (searchFor v).sub (fun _ => ofValue v.2.toList) text.length text

def fillMarked (template : String) (vars : List Variable) : List Letter :=
  vars.foldl replaceMarked (ofTemplate template.toList)

/-- The result does not depend on the order of the variables, and in no order does a
variable replace a letter that came from a value. -/
structure Independent (template : String) (vars : List Variable) : Prop where
  order : ∀ vs, vs.Perm vars → fillTemplate template vs = fillTemplate template vars
  untouched : ∀ before x after, (before ++ x :: after).Perm vars →
    ∀ pieces, Cut (searchFor x) (fillMarked template before) pieces →
      ∀ w, .found w ∈ pieces → ∀ c ∈ w, c.2 = false

/-! ## Filling in at once -/

/-- A template cut into letters and placeholders. -/
abbrev TemplatePiece := Piece Char Variable

def written : TemplatePiece → List Char
  | .plain c => [c]
  | .found v => placeholder v.1

/-- The piece, the placeholders of some variables filled in. -/
def filledIn (filled : List Variable) : TemplatePiece → List Letter
  | .plain c => [(c, false)]
  | .found v => if v ∈ filled then ofValue v.2.toList else ofTemplate (placeholder v.1)

/-- What a search for `x` is to find there: the placeholder of `x`. -/
def seen (filled : List Variable) (x : Variable) : TemplatePiece → List (Piece Letter (List Letter))
  | .plain c => [.plain (c, false)]
  | .found v =>
    if v ∈ filled then (ofValue v.2.toList).map .plain
    else if v = x then [.found (ofTemplate (placeholder v.1))]
    else (ofTemplate (placeholder v.1)).map .plain

/-- The template can be cut at the placeholders of its variables so that, whichever of them
are filled in at once, a search for another one finds its placeholders and nothing else. -/
def FilledApart (template : String) (vars : List Variable) : Prop :=
  ∃ pieces : List TemplatePiece, pieces.flatMap written = template.toList ∧
    (∀ v, .found v ∈ pieces → v ∈ vars) ∧
    ∀ filled ⊆ vars, ∀ x ∈ vars, x ∉ filled →
      Cut (searchFor x) (pieces.flatMap (filledIn filled)) (pieces.flatMap (seen filled x))

/-- Names that are no placeholders themselves, and values that are there. -/
def Proper (vars : List Variable) : Prop :=
  ∀ v ∈ vars, '{' ∉ v.1.toList ∧ '}' ∉ v.1.toList ∧ v.2 ≠ ""

/-! ## The loop on marked letters -/

@[simp] theorem fst_ofTemplate (text : List Char) : (ofTemplate text).map Prod.fst = text := by
  rw [ofTemplate, List.map_map]
  exact List.map_id text

@[simp] theorem fst_ofValue (text : List Char) : (ofValue text).map Prod.fst = text := by
  rw [ofValue, List.map_map]
  exact List.map_id text

theorem fst_replaceMarked (text : List Letter) (v : Variable) :
    (replaceMarked text v).map Prod.fst = replaceVar (text.map Prod.fst) v := by
  have sub := @Scan.map_sub_literal _ _ _ Prod.fst (placeholder v.1) (placeholder_ne_nil v.1)
    (ofValue v.2.toList) text.length text
  rw [fst_ofValue] at sub
  rw [replaceVar, List.length_map]
  exact sub

/-- The marks do not change the text. -/
theorem fst_fillMarked (template : String) (vars : List Variable) :
    String.ofList ((fillMarked template vars).map Prod.fst) =
      fillTemplate template vars := by
  have loop : ∀ (vs : List Variable) (text : List Letter),
      (vs.foldl replaceMarked text).map Prod.fst = vs.foldl replaceVar (text.map Prod.fst) := by
    intro vs
    induction vs with
    | nil => intro text; rfl
    | cons v vs ih =>
      intro text
      rw [List.foldl_cons, List.foldl_cons, ih, fst_replaceMarked]
  rw [fillMarked, loop, fst_ofTemplate, fillTemplate]

/-- A pass over what it is to find fills the variable in. -/
theorem shown_seen (filled : List Variable) {x : Variable} (new : x ∉ filled)
    (pieces : List TemplatePiece) :
    (pieces.flatMap (seen filled x)).flatMap (·.shown fun _ => ofValue x.2.toList) =
      pieces.flatMap (filledIn (filled ++ [x])) := by
  have plain : ∀ text : List Letter,
      (text.map (Piece.plain : Letter → Piece Letter (List Letter))).flatMap
        (·.shown fun _ => ofValue x.2.toList) = text := by
    intro text
    induction text with
    | nil => rfl
    | cons c text ih => exact congrArg (c :: ·) ih
  rw [List.flatMap_assoc]
  congr 1
  funext piece
  cases piece with
  | plain c => rfl
  | found v =>
    rw [seen, filledIn]
    by_cases old : v ∈ filled
    · rw [if_pos old, if_pos (List.mem_append_left _ old), plain]
    · by_cases same : v = x
      · subst same
        rw [if_neg old, if_pos rfl, if_pos (by simp)]
        exact List.append_nil _
      · rw [if_neg old, if_neg same, if_neg (by simp [old, same]), plain]

theorem filledIn_nil (pieces : List TemplatePiece) :
    pieces.flatMap (filledIn []) = ofTemplate (pieces.flatMap written) := by
  rw [ofTemplate, List.map_flatMap]
  congr 1
  funext piece
  cases piece <;> rfl

/-- Which variables are filled in counts, not in which order. -/
theorem filledIn_perm {vs us : List Variable} (same : vs.Perm us) (pieces : List TemplatePiece) :
    pieces.flatMap (filledIn vs) = pieces.flatMap (filledIn us) := by
  congr 1
  funext piece
  cases piece with
  | plain c => rfl
  | found v => rw [filledIn, filledIn, if_congr same.mem_iff rfl rfl]

/-- As long as each pass finds what it is to find, the loop fills in at once. -/
theorem fillMarked_eq {template : String} {pieces : List TemplatePiece}
    (whole : pieces.flatMap written = template.toList) :
    ∀ {vs : List Variable}, vs.Nodup →
      (∀ before x after, vs = before ++ x :: after →
        Cut (searchFor x) (pieces.flatMap (filledIn before)) (pieces.flatMap (seen before x))) →
      fillMarked template vs = pieces.flatMap (filledIn vs) := by
  intro vs
  induction vs using List.reverseRecOn with
  | nil =>
    intro _ _
    rw [filledIn_nil, whole]
    rfl
  | append_singleton vs x ih =>
    intro distinct finds
    obtain ⟨distinct, -, apart⟩ := List.nodup_append.mp distinct
    have before := ih distinct fun b y a split => finds b y (a ++ [x]) (by rw [split]; simp)
    have new : x ∉ vs := fun old => apart x old x (by simp) rfl
    have pass := Scan.sub_of_cut (finds vs x [] rfl) (Nat.le_refl _)
      (f := fun _ => ofValue x.2.toList)
    rw [fillMarked, List.foldl_append, ← fillMarked, before, List.foldl_cons, List.foldl_nil,
      replaceMarked, pass, shown_seen vs new]

/-- Nothing else is among what a search is to find. -/
theorem clean_seen {filled : List Variable} {x : Variable} {pieces : List TemplatePiece}
    {w : List Letter} (found : .found w ∈ pieces.flatMap (seen filled x)) :
    ∀ c ∈ w, c.2 = false := by
  obtain ⟨piece, -, member⟩ := List.mem_flatMap.mp found
  cases piece with
  | plain c => simp [seen] at member
  | found v =>
    rw [seen] at member
    split at member
    · simp at member
    · split at member
      · simp only [List.mem_singleton, Piece.found.injEq] at member
        subst member
        intro c hc
        obtain ⟨_, _, rfl⟩ := List.mem_map.mp hc
        rfl
      · simp at member

/-- Filled apart, the variables do not meddle with each other. -/
theorem independent_of_apart {template : String} {vars : List Variable} (distinct : vars.Nodup)
    (apart : FilledApart template vars) : Independent template vars := by
  obtain ⟨pieces, whole, -, finds⟩ := apart
  have found : ∀ before x after, (before ++ x :: after).Perm vars →
      Cut (searchFor x) (pieces.flatMap (filledIn before)) (pieces.flatMap (seen before x)) := by
    intro before x after order
    have new : x ∉ before := fun old =>
      (List.nodup_append.mp (order.nodup_iff.mpr distinct)).2.2 x old x (by simp) rfl
    exact finds before (fun v hv => order.mem_iff.mp (List.mem_append_left _ hv)) x
      (order.mem_iff.mp (by simp)) new
  have atOnce : ∀ before after, (before ++ after).Perm vars →
      fillMarked template before = pieces.flatMap (filledIn before) := by
    intro before after order
    refine fillMarked_eq whole (List.nodup_append.mp (order.nodup_iff.mpr distinct)).1 ?_
    intro b x a split
    exact found b x (a ++ after) (by rw [split] at order; simpa using order)
  constructor
  · intro vs order
    have here := atOnce vs [] (by simpa using order)
    have there := atOnce vars [] (by simp)
    rw [← fst_fillMarked, ← fst_fillMarked, here, there, filledIn_perm order]
  · intro before x after order pieces' cut w member
    rw [atOnce before (x :: after) order] at cut
    rw [cut.unique (found before x after order)] at member
    exact clean_seen member

/-! ## The other way -/

/-- The search for any placeholder of the variables. -/
def anyVariable (vars : List Variable) : Finder Char Variable where
  find text :=
    (vars.find? fun v => (placeholder v.1).isPrefixOf text).map fun v =>
      (v, text.drop (placeholder v.1).length)
  source v := placeholder v.1
  splits := by
    intro text v rest found
    obtain ⟨u, first, same⟩ := Option.map_eq_some_iff.mp found
    obtain ⟨rfl, rfl⟩ := Prod.mk.inj same
    have starts : (placeholder u.1).isPrefixOf text = true := by
      have holds := List.find?_some first
      exact holds
    exact (List.prefix_iff_eq_append.mp (List.isPrefixOf_iff_prefix.mp starts)).symm
  nonempty := fun _ => placeholder_ne_nil _

theorem source_anyVariable (vars : List Variable) (piece : TemplatePiece) :
    piece.source (anyVariable vars) = written piece := by
  cases piece <;> rfl

/-- Where a placeholder of a variable begins, one is found. -/
theorem anyVariable_found {vars : List Variable} {x : Variable} (member : x ∈ vars)
    {text : List Char} (starts : placeholder x.1 <+: text) :
    (anyVariable vars).find text ≠ none := by
  intro nothing
  have missing := List.find?_eq_none.mp (Option.map_eq_none_iff.mp nothing) x member
  exact missing (List.isPrefixOf_iff_prefix.mpr starts)

/-- Letters of the template side by side have been side by side in it: where something has
been filled in between, there are letters of it. -/
theorem unmarked_start {filled : List Variable} (there : ∀ v ∈ filled, v.2 ≠ "") :
    ∀ {pieces : List TemplatePiece} {w rest : List Letter},
      pieces.flatMap (filledIn filled) = w ++ rest → (∀ c ∈ w, c.2 = false) →
      w.map Prod.fst <+: pieces.flatMap written := by
  intro pieces
  induction pieces with
  | nil =>
    intro w rest split _
    rw [(List.append_eq_nil_iff.mp split.symm).1]
    exact List.nil_prefix
  | cons piece pieces ih =>
    intro w rest split clean
    rw [List.flatMap_cons] at split ⊢
    cases piece with
    | plain c =>
      cases w with
      | nil => exact List.nil_prefix
      | cons a w =>
        obtain ⟨rfl, behind⟩ := List.cons.inj split
        exact (List.prefix_cons_inj c).mpr
          (ih behind fun c hc => clean c (List.mem_cons_of_mem _ hc))
    | found v =>
      rw [filledIn] at split
      split at split
      · next old =>
        cases w with
        | nil => exact List.nil_prefix
        | cons a w =>
          have letters : v.2.toList ≠ [] := by simpa using there v old
          obtain ⟨c, more, value⟩ := List.exists_cons_of_ne_nil letters
          rw [value] at split
          have mark := clean a List.mem_cons_self
          rw [← (List.cons.inj split).1] at mark
          cases mark
      · rw [written]
        rcases List.append_eq_append_iff.mp split with ⟨more, longer, behind⟩ | ⟨more, longer, -⟩
        · rw [longer, List.map_append, fst_ofTemplate]
          refine (List.prefix_append_right_inj _).mpr (ih behind fun c hc => clean c ?_)
          rw [longer]
          exact List.mem_append_right _ hc
        · have starts := congrArg (List.map Prod.fst) longer
          rw [fst_ofTemplate, List.map_append] at starts
          rw [starts, List.append_assoc]
          exact List.prefix_append _ _

/-- A search that finds letters of the template only passes over a value. -/
theorem cut_after_value {x : Variable} {part rest : List Letter} (marked : ∀ c ∈ part, c.2 = true)
    {pieces : List (Piece Letter (List Letter))} (cut : Cut (searchFor x) (part ++ rest) pieces)
    (clean : ∀ w, .found w ∈ pieces → ∀ c ∈ w, c.2 = false) :
    ∃ later, pieces = part.map .plain ++ later ∧ Cut (searchFor x) rest later := by
  induction part generalizing pieces with
  | nil => exact ⟨pieces, rfl, cut⟩
  | cons a part ih =>
    cases cut with
    | plain _ cut =>
      obtain ⟨later, split, behind⟩ := ih (fun c hc => marked c (List.mem_cons_of_mem _ hc)) cut
        fun w hw => clean w (List.mem_cons_of_mem _ hw)
      exact ⟨later, by rw [split]; rfl, behind⟩
    | @found _ _ w _ finding _ =>
      -- What is found starts with the value's first letter.
      have split := (searchFor x).splits finding
      cases w with
      | nil => exact absurd rfl ((searchFor x).nonempty finding)
      | cons b w =>
        have mark := marked a List.mem_cons_self
        have head : a = b := (List.cons.inj split).1
        rw [head, clean _ List.mem_cons_self b List.mem_cons_self] at mark
        cases mark

theorem placeholder_inj {x y : String} {text : List Char} (hx : '}' ∉ x.toList)
    (hy : '}' ∉ y.toList) (starts : placeholder x <+: placeholder y ++ text) : x = y := by
  obtain ⟨rest, split⟩ := starts
  simp only [placeholder, List.cons_append, List.append_assoc] at split
  have names := (Delimited.append_cons_inj hx hy (List.cons.inj split).2).1
  exact String.toList_inj.mp names

/-- Nowhere in the placeholder of another variable. -/
theorem silent_placeholder {x v : Variable} (hx : '{' ∉ x.1.toList ∧ '}' ∉ x.1.toList)
    (hv : '{' ∉ v.1.toList ∧ '}' ∉ v.1.toList) (other : v.1 ≠ x.1) (rest : List Letter) :
    Silent (searchFor x) (ofTemplate (placeholder v.1)) rest := by
  intro before a behind split
  rw [searchFor, literal_find, if_neg]
  intro starts
  have starts := List.isPrefixOf_iff_prefix.mp starts
  cases before with
  | nil =>
    rw [← List.cons_append, ← List.nil_append (a :: behind), ← split, List.map_append,
      fst_ofTemplate] at starts
    exact other (placeholder_inj hx.2 hv.2 starts).symm
  | cons b before =>
    have letter : a.1 ∈ v.1.toList ++ ['}'] := by
      have texts := congrArg (List.map Prod.fst) split
      rw [fst_ofTemplate, placeholder, List.cons_append, List.map_cons, List.map_append] at texts
      rw [(List.cons.inj texts).2]
      simp
    rw [placeholder, List.map_cons] at starts
    rw [← (List.cons_prefix_cons.mp starts).1] at letter
    simp [hv.1] at letter

/-- Where a search finds letters of the template only, it finds the placeholders. -/
theorem cut_seen {template : List Char} {vars filled : List Variable} {x : Variable}
    (keys : (vars.map Prod.fst).Nodup) (proper : Proper vars) (some_ : filled ⊆ vars)
    (member : x ∈ vars) (new : x ∉ filled) {pieces : List TemplatePiece}
    (cut : Cut (anyVariable vars) template pieces) (named : ∀ v, .found v ∈ pieces → v ∈ vars) :
    ∀ {found : List (Piece Letter (List Letter))},
      Cut (searchFor x) (pieces.flatMap (filledIn filled)) found →
      (∀ w, .found w ∈ found → ∀ c ∈ w, c.2 = false) → found = pieces.flatMap (seen filled x) := by
  have proper_text : ∀ v ∈ filled, v.2 ≠ "" := fun v old => (proper v (some_ old)).2.2
  induction cut with
  | nil =>
    intro found cut _
    exact cut.unique .nil
  | @plain c text pieces nothing cut ih =>
    intro found cut' clean
    have here : Cut (searchFor x) ((c, false) :: pieces.flatMap (filledIn filled)) found := cut'
    cases here with
    | plain _ behind =>
      have later := ih (fun v hv => named v (List.mem_cons_of_mem _ hv)) behind fun w hw =>
        clean w (List.mem_cons_of_mem _ hw)
      rw [later]
      rfl
    | @found _ _ w _ finding _ =>
      -- The letters would have been a placeholder in the template.
      obtain ⟨reads, split⟩ := literal_found finding
      have starts := @unmarked_start filled proper_text (.plain c :: pieces) w _ split
        (clean w List.mem_cons_self)
      have whole : (Piece.plain c :: pieces).flatMap written = c :: text := by
        rw [← cut.whole]
        simp only [source_anyVariable]
        rfl
      rw [reads, whole] at starts
      exact absurd nothing (anyVariable_found member starts)
  | @found text rest v pieces finding cut ih =>
    intro found cut' clean
    have others : ∀ u, .found u ∈ pieces → u ∈ vars := fun u hu =>
      named u (List.mem_cons_of_mem _ hu)
    have hv := named v List.mem_cons_self
    rw [List.flatMap_cons, filledIn] at cut'
    rw [List.flatMap_cons, seen]
    by_cases old : v ∈ filled
    · rw [if_pos old] at cut' ⊢
      obtain ⟨behind, split, cut'⟩ := cut_after_value (by simp [ofValue]) cut' clean
      rw [split, ih others cut' fun w hw => clean w (split ▸ List.mem_append_right _ hw)]
    · rw [if_neg old] at cut' ⊢
      by_cases same : v = x
      · subst same
        rw [if_pos rfl]
        have head : (searchFor v).find (ofTemplate (placeholder v.1) ++
            pieces.flatMap (filledIn filled)) =
              some (ofTemplate (placeholder v.1), pieces.flatMap (filledIn filled)) :=
          literal_head (fst_ofTemplate _)
        obtain ⟨behind, split, cut'⟩ := cut'.at_finding head
        rw [split, ih others cut' fun w hw => clean w (split ▸ List.mem_cons_of_mem _ hw)]
        rfl
      · rw [if_neg same]
        have other : v.1 ≠ x.1 := fun name => same (List.inj_on_of_nodup_map keys hv member name)
        have silent := silent_placeholder ⟨(proper x member).1, (proper x member).2.1⟩
          ⟨(proper v hv).1, (proper v hv).2.1⟩ other (pieces.flatMap (filledIn filled))
        obtain ⟨behind, split, cut'⟩ := cut'.after_silent silent
        rw [split, ih others cut' fun w hw => clean w (split ▸ List.mem_append_right _ hw)]

/-- Only membership of the variables filled in counts. -/
theorem filledApart_congr {us vs : List Variable} (same : ∀ v, v ∈ us ↔ v ∈ vs) (x : Variable)
    (pieces : List TemplatePiece) :
    pieces.flatMap (filledIn us) = pieces.flatMap (filledIn vs) ∧
      pieces.flatMap (seen us x) = pieces.flatMap (seen vs x) := by
  constructor <;> congr 1 <;> funext piece <;> cases piece with
  | plain c => rfl
  | found v => simp only [filledIn, seen, same v]

/-- Independent of each other, the variables are filled apart: the cut is that of the
template at all its placeholders. -/
theorem apart_of_independent {template : String} {vars : List Variable}
    (keys : (vars.map Prod.fst).Nodup) (proper : Proper vars)
    (independent : Independent template vars) : FilledApart template vars := by
  have distinct : vars.Nodup := keys.of_map
  obtain ⟨pieces, cut⟩ := Scan.exists_cut (F := anyVariable vars) template.toList
  have whole : pieces.flatMap written = template.toList := by
    rw [← cut.whole]
    simp only [source_anyVariable]
  have named : ∀ v, .found v ∈ pieces → v ∈ vars := by
    intro v member
    obtain ⟨earlier, later, rfl⟩ := List.append_of_mem member
    obtain ⟨u, first, same⟩ := Option.map_eq_some_iff.mp cut.finding
    have name : u = v := (Prod.mk.inj same).1
    exact name ▸ List.mem_of_find?_eq_some first
  -- By the number of variables filled in before.
  have finds : ∀ n before x after, before.length = n → (before ++ x :: after).Perm vars →
      Cut (searchFor x) (pieces.flatMap (filledIn before)) (pieces.flatMap (seen before x)) := by
    intro n
    induction n using Nat.strongRecOn with
    | ind n ih =>
      intro before x after size order
      have split := List.nodup_append.mp (order.nodup_iff.mpr distinct)
      have text : fillMarked template before = pieces.flatMap (filledIn before) := by
        refine fillMarked_eq whole split.1 fun b y a earlier => ?_
        refine ih b.length ?_ b y (a ++ x :: after) rfl ?_
        · rw [← size, earlier, List.length_append, List.length_cons]
          omega
        · rw [earlier] at order
          simpa using order
      obtain ⟨found, pass⟩ := Scan.exists_cut (F := searchFor x) (pieces.flatMap (filledIn before))
      have clean := independent.untouched before x after order found (text ▸ pass)
      have new : x ∉ before := fun old => split.2.2 x old x List.mem_cons_self rfl
      have same := cut_seen keys proper (fun v hv => order.mem_iff.mp (List.mem_append_left _ hv))
        (order.mem_iff.mp (by simp)) new cut named pass clean
      exact same ▸ pass
  refine ⟨pieces, whole, named, fun filled some_ x member new => ?_⟩
  -- The variables filled in, each once, then `x`, then the others.
  let before := vars.filter fun v => v ∈ filled
  let others := vars.filter fun v => !(decide (v ∈ filled))
  have same : ∀ v, v ∈ filled ↔ v ∈ before := fun v => by
    simp only [before, List.mem_filter, decide_eq_true_eq]
    exact ⟨fun old => ⟨some_ old, old⟩, And.right⟩
  have left : x ∈ others := by simp [others, member, new]
  have order : (before ++ x :: others.erase x).Perm vars :=
    ((List.perm_cons_erase left).symm.append_left before).trans (List.filter_append_perm _ _)
  obtain ⟨text, expected⟩ := filledApart_congr same x pieces
  rw [text, expected]
  exact finds _ before x _ rfl order

/-- The loop is the substitution where the template can be cut at its placeholders so that,
whichever variables have been filled in, a search for another one finds its placeholders
and nothing else; and where no name has a brace and no value is empty, nowhere else. -/
theorem filledApart_iff (template : String) (body : TemplateRun) :
    (FilledApart template body.vars → Independent template body.vars) ∧
      (Proper body.vars → (Independent template body.vars ↔ FilledApart template body.vars)) :=
  have enough := independent_of_apart body.keys.of_map
  ⟨enough, fun proper => ⟨apart_of_independent body.keys proper, enough⟩⟩

/-- No placeholder begins where no brace opens. -/
theorem silent_of_braceless {x : Variable} {part : List Letter} (plain : ∀ c ∈ part, c.1 ≠ '{')
    (rest : List Letter) : Silent (searchFor x) part rest := by
  intro before a behind split
  rw [searchFor, literal_find, if_neg]
  intro starts
  have head := (List.cons_prefix_cons.mp (List.isPrefixOf_iff_prefix.mp starts)).1
  exact plain a (by rw [split]; simp) head.symm

/-- The ordinary case: no value and no name has a brace in it, and the template has them
around its variables only. -/
theorem filledApart_of_braceless {template : String} {vars : List Variable}
    (keys : (vars.map Prod.fst).Nodup)
    (plain : ∀ v ∈ vars, '{' ∉ v.1.toList ∧ '}' ∉ v.1.toList ∧ '{' ∉ v.2.toList)
    {pieces : List TemplatePiece} (whole : pieces.flatMap written = template.toList)
    (named : ∀ v, .found v ∈ pieces → v ∈ vars) (letters : ∀ c, .plain c ∈ pieces → c ≠ '{') :
    FilledApart template vars := by
  refine ⟨pieces, whole, named, fun filled some_ x member _ => ?_⟩
  clear whole
  induction pieces with
  | nil => exact .nil
  | cons piece pieces ih =>
    have later := ih (fun v hv => named v (List.mem_cons_of_mem _ hv))
      fun c hc => letters c (List.mem_cons_of_mem _ hc)
    rw [List.flatMap_cons, List.flatMap_cons]
    cases piece with
    | plain c =>
      have alone : ∀ l ∈ filledIn filled (.plain c), l.1 ≠ '{' := by
        intro l hl
        rw [List.mem_singleton.mp hl]
        exact letters c List.mem_cons_self
      exact later.silent_append (silent_of_braceless alone _)
    | found v =>
      have hv := named v List.mem_cons_self
      rw [filledIn, seen]
      by_cases old : v ∈ filled
      · rw [if_pos old, if_pos old]
        refine later.silent_append (silent_of_braceless (fun c hc => ?_) _)
        obtain ⟨letter, inside, rfl⟩ := List.mem_map.mp hc
        intro brace
        exact (plain v hv).2.2 (brace ▸ inside)
      · rw [if_neg old, if_neg old]
        by_cases same : v = x
        · subst same
          rw [if_pos rfl]
          exact .found (literal_head (fst_ofTemplate _)) later
        · rw [if_neg same]
          have other : v.1 ≠ x.1 := fun name =>
            same (List.inj_on_of_nodup_map keys hv member name)
          exact later.silent_append (silent_placeholder ⟨(plain x member).1, (plain x member).2.1⟩
            ⟨(plain v hv).1, (plain v hv).2.1⟩ other _)

/-- Two variables with plain values -/
theorem greeting_independent :
    Independent "\x7bwhom\x7d, \x7bwhat\x7d!" [("whom", "Ada"), ("what", "hello")] :=
  (filledApart_iff _ ⟨[("whom", "Ada"), ("what", "hello")], by decide⟩).1
    (@filledApart_of_braceless _ _ (by decide) (by decide)
      [.found ("whom", "Ada"), .plain ',', .plain ' ', .found ("what", "hello"), .plain '!']
      (by decide) (by simp) (by simp))

/-- A value that reads like the placeholder of a variable filled in later -/
theorem chained_value :
    ¬ Independent "\x7ba\x7d" [("a", "\x7bb\x7d"), ("b", "x")] := by
  intro independent
  have order := independent.order [("b", "x"), ("a", "\x7bb\x7d")] (List.Perm.swap _ _ _)
  exact absurd order (by decide)

end LegionForge.Gateway
