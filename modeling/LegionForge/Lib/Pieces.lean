import LegionForge.Lib.Stretch

/-!
# The pieces of a substitution

`pieces` is a substitution with its matches marked: put together, the pieces are the text
(`piecesFrom_source`) or the result (`piecesFrom_result`). A stretch all of whose
characters are kept is found again in the result, between what the substitution made of
the rest, and next to it there is what was there or an end of a replacement.
-/

namespace Regex

/-- A character that a substitution keeps, or a match that it replaces. -/
inductive Piece where
  | kept (c : Char)
  | replaced (text : List Char)
  deriving DecidableEq

def Piece.source : Piece → List Char
  | .kept c => [c]
  | .replaced text => text

def Piece.result (replacement : List Char) : Piece → List Char
  | .kept c => [c]
  | .replaced _ => replacement

section
variable (d : CharData) (ignoreCase : Bool)

/-- `subFrom` with its matches marked -/
def Pattern.piecesFrom (p : Pattern) : Nat → List Char → List Char → List Piece
  | 0, _, after => after.map .kept
  | _ + 1, _, [] => []
  | fuel + 1, before, c :: rest =>
    match p.ends d ignoreCase ⟨before, c :: rest⟩ with
    | t :: _ =>
      if t.after.length ≤ rest.length then
        .replaced ((c :: rest).take ((c :: rest).length - t.after.length)) ::
          Pattern.piecesFrom p fuel t.before t.after
      else .kept c :: Pattern.piecesFrom p fuel (c :: before) rest
    | [] => .kept c :: Pattern.piecesFrom p fuel (c :: before) rest

def Pattern.pieces (p : Pattern) (text : List Char) : List Piece :=
  p.piecesFrom d ignoreCase text.length [] text

/-- The substitution keeps every character of `w`, and makes `around'` of what stands
before and behind it. -/
def Pattern.Keeps (p : Pattern) (replacement w : List Char)
    (around around' : List Char × List Char) : Prop :=
  ∃ left right,
    p.pieces d ignoreCase (around.1 ++ w ++ around.2) = left ++ w.map .kept ++ right ∧
    left.flatMap Piece.source = around.1 ∧
    left.flatMap (Piece.result replacement) = around'.1 ∧
    right.flatMap (Piece.result replacement) = around'.2

end

section
variable {d : CharData} {ignoreCase : Bool} {p : Pattern} {replacement w : List Char}
variable {around around' : List Char × List Char}

theorem flatMap_kept (text : List Char) {f : Piece → List Char}
    (keeps : ∀ c, f (.kept c) = [c]) : (text.map Piece.kept).flatMap f = text := by
  induction text with
  | nil => rfl
  | cons c text ih => rw [List.map_cons, List.flatMap_cons, keeps, ih, List.singleton_append]

/-- The pieces make up the text. -/
theorem piecesFrom_source {fuel : Nat} : ∀ {before after : List Char},
    (p.piecesFrom d ignoreCase fuel before after).flatMap Piece.source = after := by
  induction fuel with
  | zero => intro before after; exact flatMap_kept after fun _ => rfl
  | succ fuel ih =>
    intro before after
    match after with
    | [] => rfl
    | c :: rest =>
      rw [Pattern.piecesFrom]
      split
      next t ends found =>
        split
        · have mem : t ∈ p.ends d ignoreCase ⟨before, c :: rest⟩ := by
            rw [found]
            exact List.mem_cons_self
          obtain ⟨v, here, -⟩ := ends_ahead p _ t mem
          dsimp only at here
          rw [List.flatMap_cons, ih, Piece.source, here, List.length_append,
            Nat.add_sub_cancel, List.take_left]
        · rw [List.flatMap_cons, ih]
          rfl
      · rw [List.flatMap_cons, ih]
        rfl

theorem piecesFrom_result {fuel : Nat} : ∀ {before after : List Char},
    (p.piecesFrom d ignoreCase fuel before after).flatMap (Piece.result replacement) =
      p.subFrom d ignoreCase replacement fuel before after := by
  induction fuel with
  | zero => intro before after; exact flatMap_kept after fun _ => rfl
  | succ fuel ih =>
    intro before after
    match after with
    | [] => rfl
    | c :: rest =>
      rw [Pattern.piecesFrom, Pattern.subFrom]
      cases p.ends d ignoreCase ⟨before, c :: rest⟩ with
      | nil =>
        dsimp only
        rw [List.flatMap_cons, ih]
        rfl
      | cons t ends =>
        dsimp only
        split
        · rw [List.flatMap_cons, ih]
          rfl
        · rw [List.flatMap_cons, ih]
          rfl

theorem pieces_of_no_match {fuel : Nat} : ∀ {before after : List Char},
    p.searchFrom d ignoreCase before after = false →
    p.piecesFrom d ignoreCase fuel before after = after.map .kept := by
  induction fuel with
  | zero => intro before after _; rfl
  | succ fuel ih =>
    intro before after none
    match after with
    | [] => rfl
    | c :: rest =>
      obtain ⟨here, later⟩ := Bool.or_eq_false_iff.mp none
      have no_end : p.ends d ignoreCase ⟨before, c :: rest⟩ = [] := by simpa using here
      rw [Pattern.piecesFrom, no_end]
      exact congrArg (Piece.kept c :: ·) (ih later)

/-- Where there is no match, everything is kept. -/
theorem keeps_of_no_match
    (none : p.search d ignoreCase (around.1 ++ w ++ around.2) = false) :
    p.Keeps d ignoreCase replacement w around around := by
  refine ⟨around.1.map .kept, around.2.map .kept, ?_, ?_⟩
  · rw [Pattern.pieces, pieces_of_no_match none, List.map_append, List.map_append]
  · exact ⟨flatMap_kept _ fun _ => rfl, flatMap_kept _ fun _ => rfl, flatMap_kept _ fun _ => rfl⟩

/-- What is kept is found again in the result. -/
theorem Pattern.Keeps.sub (keeps : p.Keeps d ignoreCase replacement w around around') :
    p.sub d ignoreCase replacement (around.1 ++ w ++ around.2) = around'.1 ++ w ++ around'.2 := by
  obtain ⟨left, right, split, -, before, after⟩ := keeps
  have result : (p.pieces d ignoreCase (around.1 ++ w ++ around.2)).flatMap
      (Piece.result replacement) = p.sub d ignoreCase replacement (around.1 ++ w ++ around.2) :=
    piecesFrom_result
  rw [← result, split, List.flatMap_append, List.flatMap_append, before, after,
    flatMap_kept w fun _ => rfl]

theorem calmer_take (text : List Char) {mark : List Char}
    (plain : mark.head?.any d.word = false) (n : Nat) : Calmer d text (text.take n ++ mark) := by
  intro word
  match n, text with
  | 0, text =>
    rw [List.take_zero, List.nil_append, plain] at word
    cases word
  | _ + 1, [] =>
    rw [List.take_nil, List.nil_append, plain] at word
    cases word
  | n + 1, c :: text => exact word

/-- A replacement without word characters at its ends brings none next to anything. -/
theorem calmer_pieces {pieces : List Piece} (some_text : replacement ≠ [])
    (plain : replacement.head?.any d.word = false) :
    Calmer d (pieces.flatMap Piece.source) (pieces.flatMap (Piece.result replacement)) := by
  intro word
  match pieces with
  | [] => exact word
  | .kept c :: rest => exact word
  | .replaced text :: rest =>
    rw [List.flatMap_cons, Piece.result, List.head?_append_of_ne_nil _ some_text, plain] at word
    cases word

theorem calmer_pieces_reverse {pieces : List Piece} (some_text : replacement ≠ [])
    (plain : replacement.getLast?.any d.word = false) :
    Calmer d (pieces.flatMap Piece.source).reverse
      (pieces.flatMap (Piece.result replacement)).reverse := by
  intro word
  rcases List.eq_nil_or_concat pieces with rfl | ⟨pieces, piece, rfl⟩
  · exact word
  · rw [List.concat_eq_append, List.flatMap_append, List.flatMap_singleton,
      List.reverse_append] at word ⊢
    cases piece with
    | kept c => exact word
    | replaced text =>
      rw [Piece.result, List.head?_append_of_ne_nil _ (by simpa using some_text),
        List.head?_reverse, plain] at word
      cases word

theorem Pattern.Keeps.calmer (keeps : p.Keeps d ignoreCase replacement w around around')
    (some_text : replacement ≠ []) (first : replacement.head?.any d.word = false)
    (last : replacement.getLast?.any d.word = false) :
    Calmer d around.1.reverse around'.1.reverse ∧ Calmer d around.2 around'.2 := by
  obtain ⟨left, right, split, source, before, after⟩ := keeps
  have whole : (p.pieces d ignoreCase (around.1 ++ w ++ around.2)).flatMap Piece.source =
      around.1 ++ w ++ around.2 := piecesFrom_source
  rw [split, List.flatMap_append, List.flatMap_append, flatMap_kept w fun _ => rfl, source,
    List.append_cancel_left_eq] at whole
  rw [← source, ← whole, ← before, ← after]
  exact ⟨calmer_pieces_reverse some_text last, calmer_pieces some_text first⟩

end

end Regex
