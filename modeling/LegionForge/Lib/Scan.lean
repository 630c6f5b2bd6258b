import Mathlib.Data.List.Basic
import Mathlib.Tactic.Common

/-!
# Cutting a text at what is found in it

A finder recognises something at the head of a text and says what comes behind it. Read
from left to right, it cuts the text: at each place it finds something, or the next letter
stays as it is. The derivation of a cut (`Cut`) follows that reading, so a loop over a text
that does something with each finding is understood by induction on it. There is one cut
(`exists_cut`, `Cut.unique`), put together it is the text (`Cut.whole`), and nothing is
found where a letter has stayed (`Cut.unfound`).

`sub` is the loop that puts something in place of each finding.
-/

namespace Scan

/-- What is looked for: `find` is given a text, and finds something at its head. -/
structure Finder (α β : Type) where
  find : List α → Option (β × List α)
  source : β → List α
  splits : ∀ {text b rest}, find text = some (b, rest) → text = source b ++ rest
  nonempty : ∀ {text b rest}, find text = some (b, rest) → source b ≠ []

/-- A letter that stays, or a finding. -/
inductive Piece (α β : Type) where
  | plain (a : α)
  | found (b : β)
  deriving DecidableEq

section
variable {α β : Type} (F : Finder α β)

/-- The piece as it stands in the text. -/
def Piece.source : Piece α β → List α
  | .plain a => [a]
  | .found b => F.source b

/-- Something in place of a finding. -/
def Piece.shown (f : β → List α) : Piece α β → List α
  | .plain a => [a]
  | .found b => f b

inductive Cut : List α → List (Piece α β) → Prop
  | nil : Cut [] []
  | plain {a : α} {text : List α} {pieces : List (Piece α β)} (nothing : F.find (a :: text) = none)
      (cut : Cut text pieces) : Cut (a :: text) (.plain a :: pieces)
  | found {text rest : List α} {b : β} {pieces : List (Piece α β)}
      (finding : F.find text = some (b, rest)) (cut : Cut rest pieces) :
      Cut text (.found b :: pieces)

/-- Everything that is found replaced, from left to right. -/
def Finder.sub (f : β → List α) : Nat → List α → List α
  | 0, text => text
  | _ + 1, [] => []
  | fuel + 1, a :: text =>
    match F.find (a :: text) with
    | some (b, rest) => f b ++ Finder.sub f fuel rest
    | none => a :: Finder.sub f fuel text

variable {F}

/-- Letters that stay are the text they stand for. -/
@[simp] theorem source_plain (text : List α) :
    (text.map Piece.plain).flatMap (Piece.source F) = text := by
  induction text with
  | nil => rfl
  | cons a text ih => exact congrArg (a :: ·) ih

theorem find_nil : F.find [] = none := by
  cases finding : F.find [] with
  | none => rfl
  | some answer =>
    have empty := (List.append_eq_nil_iff.mp (F.splits finding).symm).1
    exact absurd empty (F.nonempty finding)

theorem length_rest {text rest : List α} {b : β} (finding : F.find text = some (b, rest)) :
    rest.length < text.length := by
  have some_ := List.length_pos_iff.mpr (F.nonempty finding)
  rw [F.splits finding, List.length_append]
  omega

theorem exists_cut (text : List α) : ∃ pieces, Cut F text pieces := by
  induction n : text.length using Nat.strongRecOn generalizing text with
  | ind n ih =>
    subst n
    cases text with
    | nil => exact ⟨[], .nil⟩
    | cons a text =>
      cases finding : F.find (a :: text) with
      | none =>
        obtain ⟨pieces, cut⟩ := ih text.length (Nat.lt_succ_self _) text rfl
        exact ⟨_, .plain finding cut⟩
      | some answer =>
        obtain ⟨pieces, cut⟩ := ih answer.2.length (length_rest finding) answer.2 rfl
        exact ⟨_, .found finding cut⟩

theorem Cut.unique {text : List α} {pieces pieces' : List (Piece α β)} (cut : Cut F text pieces)
    (cut' : Cut F text pieces') : pieces = pieces' := by
  induction cut generalizing pieces' with
  | nil =>
    cases cut' with
    | nil => rfl
    | found finding => rw [find_nil] at finding; cases finding
  | plain nothing cut ih =>
    cases cut' with
    | plain nothing' cut' => rw [ih cut']
    | found finding => rw [nothing] at finding; cases finding
  | found finding cut ih =>
    cases cut' with
    | nil => rw [find_nil] at finding; cases finding
    | plain nothing => rw [nothing] at finding; cases finding
    | found finding' cut' =>
      rw [finding] at finding'
      cases finding'
      rw [ih cut']

theorem Cut.whole {text : List α} {pieces : List (Piece α β)} (cut : Cut F text pieces) :
    pieces.flatMap (·.source F) = text := by
  induction cut with
  | nil => rfl
  | plain _ _ ih => rw [List.flatMap_cons, ih]; rfl
  | found finding _ ih => rw [List.flatMap_cons, ih]; exact (F.splits finding).symm

theorem Cut.of_found {text : List α} {b : β} {pieces : List (Piece α β)}
    (cut : Cut F text (.found b :: pieces)) :
    ∃ rest, F.find text = some (b, rest) ∧ Cut F rest pieces := by
  cases cut with
  | found finding cut => exact ⟨_, finding, cut⟩

theorem Cut.at_finding {text rest : List α} {b : β} {pieces : List (Piece α β)}
    (finding : F.find text = some (b, rest)) (cut : Cut F text pieces) :
    ∃ later, pieces = .found b :: later ∧ Cut F rest later := by
  cases cut with
  | nil => rw [find_nil] at finding; cases finding
  | plain nothing _ => rw [nothing] at finding; cases finding
  | found finding' cut =>
    rw [finding'] at finding
    cases finding
    exact ⟨_, rfl, cut⟩

/-- The cut of what lies behind some of the pieces. -/
theorem Cut.behind {earlier later : List (Piece α β)} : ∀ {text : List α},
    Cut F text (earlier ++ later) → Cut F (later.flatMap (·.source F)) later := by
  induction earlier with
  | nil => intro text cut; exact cut.whole ▸ cut
  | cons piece earlier ih =>
    intro text cut
    cases cut with
    | plain _ cut => exact ih cut
    | found _ cut => exact ih cut

/-- Where a letter has stayed nothing is found. -/
theorem Cut.unfound {earlier later : List (Piece α β)} {a : α} {text : List α}
    (cut : Cut F text (earlier ++ .plain a :: later)) :
    F.find (a :: later.flatMap (·.source F)) = none := by
  cases cut.behind with
  | plain nothing _ => exact nothing

/-- What is among the pieces was found there. -/
theorem Cut.finding {earlier later : List (Piece α β)} {b : β} {text : List α}
    (cut : Cut F text (earlier ++ .found b :: later)) :
    F.find (F.source b ++ later.flatMap (·.source F)) =
      some (b, later.flatMap (·.source F)) := by
  obtain ⟨rest, finding, behind⟩ := cut.behind.of_found
  rw [← behind.whole] at finding
  exact finding

theorem sub_of_cut {f : β → List α} {text : List α} {pieces : List (Piece α β)}
    (cut : Cut F text pieces) : ∀ {fuel : Nat}, text.length ≤ fuel →
    F.sub f fuel text = pieces.flatMap (·.shown f) := by
  induction cut with
  | nil => intro fuel _; cases fuel <;> rfl
  | @plain a text pieces nothing cut ih =>
    intro fuel enough
    obtain ⟨fuel, rfl⟩ : ∃ n, fuel = n + 1 := ⟨fuel - 1, by simp at enough; omega⟩
    rw [Finder.sub, nothing]
    exact congrArg (a :: ·) (ih (Nat.le_of_succ_le_succ enough))
  | @found text rest b pieces finding cut ih =>
    intro fuel enough
    have shorter := length_rest finding
    obtain ⟨fuel, rfl⟩ : ∃ n, fuel = n + 1 := ⟨fuel - 1, by omega⟩
    cases text with
    | nil => rw [find_nil] at finding; cases finding
    | cons a text =>
      rw [Finder.sub, finding, List.flatMap_cons]
      exact congrArg (f b ++ ·) (ih (by omega))

/-- Nothing is found from any place of this part of the text on. -/
def Silent (F : Finder α β) (part rest : List α) : Prop :=
  ∀ before a behind, part = before ++ a :: behind → F.find (a :: (behind ++ rest)) = none

theorem Silent.tail {a : α} {part rest : List α} (silent : Silent F (a :: part) rest) :
    Silent F part rest := fun before b behind split =>
  silent (a :: before) b behind (by rw [split, List.cons_append])

theorem Cut.silent_append {part rest : List α} (silent : Silent F part rest)
    {later : List (Piece α β)} (cut : Cut F rest later) :
    Cut F (part ++ rest) (part.map .plain ++ later) := by
  induction part with
  | nil => exact cut
  | cons a part ih => exact .plain (silent [] a part rfl) (ih silent.tail)

/-- A silent part is letters that stay. -/
theorem Cut.after_silent {part rest : List α} (silent : Silent F part rest)
    {pieces : List (Piece α β)} (cut : Cut F (part ++ rest) pieces) :
    ∃ later, pieces = part.map .plain ++ later ∧ Cut F rest later := by
  induction part generalizing pieces with
  | nil => exact ⟨pieces, rfl, cut⟩
  | cons a part ih =>
    have nothing := silent [] a part rfl
    cases cut with
    | plain _ cut =>
      obtain ⟨later, split, behind⟩ := ih silent.tail cut
      exact ⟨later, by rw [split]; rfl, behind⟩
    | found finding _ =>
      rw [List.cons_append, nothing] at finding
      cases finding

end

/-! ## A fixed text -/

section Literal
variable {α γ : Type} [DecidableEq γ]

/-- Finds a fixed text, the letters seen through `view`. -/
def literal (view : α → γ) (pattern : List γ) (some_ : pattern ≠ []) : Finder α (List α) where
  find text :=
    if pattern.isPrefixOf (text.map view) then
      some (text.take pattern.length, text.drop pattern.length)
    else none
  source := id
  splits := by
    intro text b rest found
    split at found
    · cases found
      exact (List.take_append_drop _ _).symm
    · cases found
  nonempty := by
    intro text b rest found
    split at found
    · next starts =>
      cases found
      have long := (List.isPrefixOf_iff_prefix.mp starts).length_le
      have more := List.length_pos_iff.mpr some_
      rw [List.length_map] at long
      exact List.ne_nil_of_length_pos (by rw [id, List.length_take]; omega)
    · cases found

variable {view : α → γ} {pattern : List γ} {some_ : pattern ≠ []}

theorem literal_find {text : List α} :
    (literal view pattern some_).find text =
      if pattern.isPrefixOf (text.map view) then
        some (text.take pattern.length, text.drop pattern.length)
      else none := rfl

/-- What is found reads as the fixed text. -/
theorem literal_found {text w rest : List α}
    (found : (literal view pattern some_).find text = some (w, rest)) :
    w.map view = pattern ∧ text = w ++ rest := by
  refine ⟨?_, (literal view pattern some_).splits found⟩
  rw [literal_find] at found
  split at found
  · next starts =>
    cases found
    rw [List.map_take]
    exact (List.prefix_iff_eq_take.mp (List.isPrefixOf_iff_prefix.mp starts)).symm
  · cases found

theorem literal_head {w rest : List α} (reads : w.map view = pattern) :
    (literal view pattern some_).find (w ++ rest) = some (w, rest) := by
  have size : pattern.length = w.length := by rw [← reads, List.length_map]
  have starts : pattern.isPrefixOf ((w ++ rest).map view) = true := by
    rw [List.isPrefixOf_iff_prefix, List.map_append, reads]
    exact List.prefix_append _ _
  rw [literal_find, if_pos starts, size, List.take_left, List.drop_left]

/-- Replacing does not look at what the letters are besides. -/
theorem map_sub_literal (new : List α) : ∀ (fuel : Nat) (text : List α),
    ((literal view pattern some_).sub (fun _ => new) fuel text).map view =
      (literal id pattern some_).sub (fun _ => new.map view) fuel (text.map view) := by
  intro fuel
  induction fuel with
  | zero => intro text; rfl
  | succ fuel ih =>
    intro text
    cases text with
    | nil => rfl
    | cons a text =>
      rw [List.map_cons, Finder.sub, Finder.sub, literal_find, literal_find, List.map_id,
        List.map_cons]
      by_cases starts : pattern.isPrefixOf (view a :: text.map view) = true
      · rw [if_pos starts, if_pos starts]
        simp only [List.map_append, ih, List.map_drop, List.map_cons]
      · rw [if_neg starts, if_neg starts]
        simp only [List.map_cons, ih]

end Literal

end Scan
