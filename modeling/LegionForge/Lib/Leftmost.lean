import LegionForge.Lib.Survivors
import Mathlib.Data.List.Induction

/-!
# What a substitution takes, and what it leaves

A substitution goes through the text from left to right and takes a match wherever one begins,
the first that the pattern lists (`pieces_fit`). So no match begins at a character that it
keeps, and behind a match that ends in a repetition there is nothing the repetition reads
(`Piece.Fits.stops`).

Matches between two word boundaries are special: to put a mark in place of one makes no new
boundary next to it (`Edges.before`, `Edges.behind`).
-/

namespace Regex

/-! ## Pieces where they stand -/

section
variable (d : CharData) (ignoreCase : Bool)

/-- No match begins at what is kept, and what is replaced is the first that is listed. -/
def Piece.Fits (p : Pattern) (before : List Char) : Piece → List Char → Prop
  | .kept c, after => p.ends d ignoreCase ⟨before, c :: after⟩ = []
  | .replaced m, after => m ≠ [] ∧
    (p.ends d ignoreCase ⟨before, m ++ after⟩).head? = some ⟨m.reverse ++ before, after⟩

end

section
variable {d : CharData} {ignoreCase : Bool} {p q : Pattern} {before w after : List Char}

/-- A pattern that reads something leaves less to read. -/
theorem shorter_of_reads (reads : p.reads = true) {s t : Place}
    (mem : t ∈ p.ends d ignoreCase s) : t.after.length < s.after.length := by
  obtain ⟨w, here, -, spans⟩ := spans_of_mem mem
  have some_text : 0 < w.length := List.length_pos_iff.mpr (spans_reads reads spans)
  rw [here, List.length_append]
  omega

theorem piecesFrom_fit (reads : p.reads = true) {right : List Piece} {piece : Piece}
    {fuel : Nat} : ∀ {before after : List Char} {left : List Piece}, after.length ≤ fuel →
      p.piecesFrom d ignoreCase fuel before after = left ++ piece :: right →
      piece.Fits d ignoreCase p ((left.flatMap Piece.source).reverse ++ before)
        (right.flatMap Piece.source) := by
  induction fuel with
  | zero =>
    intro before after left enough split
    rw [List.eq_nil_of_length_eq_zero (Nat.le_zero.mp enough)] at split
    simp [Pattern.piecesFrom] at split
  | succ fuel ih =>
    intro before after left enough split
    cases after with
    | nil => simp [Pattern.piecesFrom] at split
    | cons c rest =>
      have enough : rest.length ≤ fuel := by simpa using enough
      rw [Pattern.piecesFrom] at split
      cases ends : p.ends d ignoreCase ⟨before, c :: rest⟩ with
      | nil =>
        rw [ends] at split
        dsimp only at split
        cases left with
        | nil =>
          obtain ⟨rfl, rfl⟩ := List.cons.inj split
          rw [piecesFrom_source]
          exact ends
        | cons first left =>
          obtain ⟨rfl, later⟩ := List.cons.inj split
          have fits := ih enough later
          simpa [Piece.source] using fits
      | cons t others =>
        have mem : t ∈ p.ends d ignoreCase ⟨before, c :: rest⟩ := by
          rw [ends]
          exact List.mem_cons_self
        have less : t.after.length ≤ rest.length := by
          have less := shorter_of_reads reads mem
          simp only [List.length_cons] at less
          omega
        rw [ends] at split
        dsimp only at split
        rw [if_pos less] at split
        obtain ⟨m, here, there, spans⟩ := spans_of_mem mem
        dsimp only at here there spans
        have taken : (c :: rest).take ((c :: rest).length - t.after.length) = m := by
          rw [here, List.length_append, Nat.add_sub_cancel, List.take_left]
        rw [taken] at split
        cases left with
        | nil =>
          obtain ⟨rfl, rfl⟩ := List.cons.inj split
          rw [piecesFrom_source]
          refine ⟨spans_reads reads spans, ?_⟩
          rw [← here]
          show (p.ends d ignoreCase ⟨before, c :: rest⟩).head? = some ⟨m.reverse ++ before, t.after⟩
          rw [ends, ← there]
          rfl
        | cons first left =>
          obtain ⟨rfl, later⟩ := List.cons.inj split
          have fits := ih (Nat.le_trans less enough) later
          rw [there] at fits
          simpa [Piece.source] using fits

/-- Every piece fits where it stands. -/
theorem pieces_fit (reads : p.reads = true) {text : List Char} {left right : List Piece}
    {piece : Piece} (split : p.pieces d ignoreCase text = left ++ piece :: right) :
    piece.Fits d ignoreCase p (left.flatMap Piece.source).reverse
      (right.flatMap Piece.source) := by
  have fits := piecesFrom_fit reads (Nat.le_refl text.length) split
  rwa [List.append_nil] at fits

theorem Piece.Fits.spans {m : List Char}
    (fits : (Piece.replaced m).Fits d ignoreCase p before after) :
    p.Spans d ignoreCase before m after :=
  List.mem_of_mem_head? fits.2

theorem Piece.Fits.not_spans {c : Char} (fits : (Piece.kept c).Fits d ignoreCase p before after)
    {rest : List Char} (text : c :: after = w ++ rest) : ¬ p.Spans d ignoreCase before w rest := by
  intro spans
  unfold Pattern.Spans at spans
  rw [← text, show p.ends d ignoreCase ⟨before, c :: after⟩ = [] from fits] at spans
  cases spans

/-! ## Repetitions take what they can -/

/-- The first place of a sequence is the first place of its last part from somewhere. -/
theorem head_ends_seq {s t : Place} (head : ((p.seq q).ends d ignoreCase s).head? = some t) :
    ∃ u ∈ p.ends d ignoreCase s, (q.ends d ignoreCase u).head? = some t := by
  have head : ((p.ends d ignoreCase s).flatMap (q.ends d ignoreCase)).head? = some t := head
  rw [List.head?_flatMap] at head
  obtain ⟨u, mem, here⟩ := List.exists_of_findSome?_eq_some head
  exact ⟨u, mem, here⟩

theorem repeated_zero_ne_nil {round : Place → List Place} {fuel : Nat} {hi : Option Nat}
    {s : Place} : repeated round fuel 0 hi s ≠ [] := by
  cases fuel with
  | zero => simp [repeated]
  | succ fuel => simp [repeated]

/-- What comes next is not in the set. -/
def Stops (d : CharData) (ignoreCase negated : Bool) (items : List ClassItem)
    (after : List Char) : Prop :=
  ∀ c ∈ after.head?, (classHolds d ignoreCase items c != negated) = false

theorem repeated_stops {negated : Bool} {items : List ClassItem} {fuel : Nat} :
    ∀ {lo : Nat} {s t : Place}, s.after.length < fuel →
      (repeated ((Pattern.set negated items).ends d ignoreCase) fuel lo none s).head? = some t →
      Stops d ignoreCase negated items t.after := by
  induction fuel with
  | zero =>
    intro lo s t enough
    cases enough
  | succ fuel ih =>
    intro lo s t enough head
    have stay : (if lo = 0 then [s] else []).head? = some t → s = t := by
      intro head
      split at head
      · exact Option.some.inj head
      · cases head
    rw [repeated, if_neg (by simp)] at head
    cases next : s.after with
    | nil =>
      have none : (Pattern.set negated items).ends d ignoreCase s = [] := by
        rw [Pattern.ends, next]
      rw [none, List.flatMap_nil, List.nil_append] at head
      rw [← stay head, next]
      intro c first
      cases first
    | cons c rest =>
      cases holds : classHolds d ignoreCase items c != negated with
      | false =>
        have none : (Pattern.set negated items).ends d ignoreCase s = [] := by
          rw [Pattern.ends, next]
          simp [holds]
        rw [none, List.flatMap_nil, List.nil_append] at head
        rw [← stay head, next]
        intro c' first
        obtain rfl := Option.some.inj first
        exact holds
      | true =>
        have one : (Pattern.set negated items).ends d ignoreCase s = [⟨c :: s.before, rest⟩] := by
          rw [Pattern.ends, next]
          simp [holds]
        have less : rest.length < s.after.length := by
          rw [next, List.length_cons]
          omega
        rw [one, List.flatMap_singleton, if_pos less, List.head?_append] at head
        cases more : (repeated ((Pattern.set negated items).ends d ignoreCase) fuel (lo - 1)
            (Option.map (· - 1) none) ⟨c :: s.before, rest⟩).head? with
        | some t' =>
          rw [more, Option.some_or] at head
          cases head
          exact ih (by dsimp only; omega) more
        | none =>
          rw [more, Option.none_or] at head
          split at head
          · next zero =>
            subst zero
            exact absurd (List.head?_eq_none_iff.mp more) repeated_zero_ne_nil
          · cases head

theorem rep_stops {negated : Bool} {items : List ClassItem} {lo : Nat} {s t : Place}
    (head : ((Pattern.rep (.set negated items) lo none).ends d ignoreCase s).head? = some t) :
    Stops d ignoreCase negated items t.after :=
  repeated_stops (Nat.lt_succ_self s.after.length) head

/-- The first place of a sequence in two parts. -/
theorem head_ends_seqs {ps qs : List Pattern} : ∀ {s t : Place},
    ((seqs (ps ++ qs)).ends d ignoreCase s).head? = some t →
    ∃ u ∈ (seqs ps).ends d ignoreCase s, ((seqs qs).ends d ignoreCase u).head? = some t := by
  induction ps with
  | nil =>
    intro s t head
    exact ⟨s, List.mem_singleton_self s, head⟩
  | cons p ps ih =>
    intro s t head
    obtain ⟨v, first, later⟩ := head_ends_seq head
    obtain ⟨u, second, last⟩ := ih later
    exact ⟨u, List.mem_flatMap.mpr ⟨v, first, second⟩, last⟩

theorem ends_seqs_single {s : Place} : (seqs [p]).ends d ignoreCase s = p.ends d ignoreCase s := by
  show (p.ends d ignoreCase s).flatMap (fun u => [u]) = p.ends d ignoreCase s
  exact List.flatMap_singleton' _

/-- So does a sequence that ends in a repetition. -/
theorem seqs_stops {negated : Bool} {items : List ClassItem} {lo : Nat} {ps : List Pattern}
    {s t : Place} (head : ((seqs (ps ++ [.rep (.set negated items) lo none])).ends d
      ignoreCase s).head? = some t) : Stops d ignoreCase negated items t.after := by
  obtain ⟨u, -, last⟩ := head_ends_seqs head
  rw [ends_seqs_single] at last
  exact rep_stops last

/-- An option is taken where it can be. -/
theorem head_ends_opt (reads : p.reads = true) {s t : Place}
    (head : ((opt p).ends d ignoreCase s).head? = some t) :
    t = s ∨ (p.ends d ignoreCase s).head? = some t := by
  have rounds : (p.ends d ignoreCase s).flatMap (fun u =>
      if u.after.length < s.after.length then
        repeated (p.ends d ignoreCase) s.after.length (0 - 1) ((some 1).map (· - 1)) u else []) =
      p.ends d ignoreCase s := by
    have one : ∀ u ∈ p.ends d ignoreCase s, (if u.after.length < s.after.length then
        repeated (p.ends d ignoreCase) s.after.length (0 - 1) ((some 1).map (· - 1)) u else []) =
        [u] := by
      intro u mem
      rw [if_pos (shorter_of_reads reads mem)]
      cases s.after.length <;> simp [repeated]
    rw [List.flatMap_congr one, List.flatMap_singleton']
  unfold opt Pattern.ends repeated at head
  rw [if_neg (by simp), rounds, if_pos rfl, List.head?_append] at head
  cases first : (p.ends d ignoreCase s).head? with
  | none =>
    rw [first, Option.none_or] at head
    exact .inl (Option.some.inj head).symm
  | some t' =>
    rw [first, Option.some_or] at head
    exact .inr head

/-- Nothing matches from a kept stretch on. -/
theorem not_spans_of_kept (reads : p.reads = true) {text v rest : List Char} {c : Char}
    {left right : List Piece} (split : p.pieces d ignoreCase text =
      left ++ (c :: v).map .kept ++ right)
    (here : c :: v ++ right.flatMap Piece.source = w ++ rest) :
    ¬ p.Spans d ignoreCase (left.flatMap Piece.source).reverse w rest := by
  rw [List.append_assoc, List.map_cons, List.cons_append] at split
  have fits := pieces_fit reads split
  rw [List.flatMap_append, flatMap_kept v fun _ => rfl] at fits
  exact fits.not_spans here

/-- Characters that no match has are kept. -/
theorem kept_of_suffix (reads : p.reads = true) {text s : List Char}
    (none : ∀ c ∈ s, ∀ {before m after : List Char}, p.Spans d ignoreCase before m after → c ∉ m) :
    ∀ {left right : List Piece} {a : List Char}, p.pieces d ignoreCase text = left ++ right →
      left.flatMap Piece.source = a ++ s →
      ∃ left', left = left' ++ s.map .kept ∧ left'.flatMap Piece.source = a := by
  induction s using List.reverseRecOn with
  | nil =>
    intro left right a _ source
    exact ⟨left, by simp, by simpa using source⟩
  | append_singleton s c ih =>
    intro left right a split source
    rcases List.eq_nil_or_concat left with rfl | ⟨left, piece, rfl⟩
    · simp at source
    · rw [List.concat_eq_append] at split source ⊢
      rw [List.append_assoc, List.singleton_append] at split
      rw [List.flatMap_append, List.flatMap_singleton, ← List.append_assoc] at source
      cases piece with
      | kept c' =>
        obtain ⟨shorter, same⟩ := List.append_inj' source rfl
        obtain rfl := List.singleton_inj.mp same
        obtain ⟨left', rfl, source'⟩ :=
          ih (fun c mem => none c (List.mem_append_left _ mem)) split shorter
        exact ⟨left', by simp, source'⟩
      | replaced m =>
        have fits := pieces_fit reads split
        obtain ⟨m', last, rfl⟩ := (List.eq_nil_or_concat m).resolve_left fits.1
        rw [List.concat_eq_append] at source fits
        rw [Piece.source, ← List.append_assoc] at source
        obtain ⟨-, same⟩ := List.append_inj' source rfl
        obtain rfl := List.singleton_inj.mp same
        exact absurd (List.mem_append_right m' List.mem_cons_self)
          (none last (by simp) fits.spans)

/-! ## Literals and repeated sets -/

theorem spans_chr_iff {c : Char} : (chr c).Spans d false before w after ↔ w = [c] := by
  unfold chr
  rw [spans_set]
  constructor
  · rintro ⟨c', rfl, holds⟩
    simpa [classHolds, ClassItem.holds] using holds
  · rintro rfl
    exact ⟨c, rfl, by simp [classHolds, ClassItem.holds]⟩

theorem spans_lit_iff {s : String} :
    (lit s).Spans d false before w after ↔ w = s.toList := by
  unfold lit
  generalize s.toList = letters
  induction letters generalizing before w with
  | nil => exact spans_empty
  | cons c letters ih =>
    constructor
    · intro spans
      obtain ⟨a, b, rfl, first, rest⟩ := spans_seq.mp spans
      rw [spans_chr_iff.mp first, ih.mp rest]
      rfl
    · rintro rfl
      exact spans_seq.mpr ⟨[c], letters, rfl, spans_chr_iff.mpr rfl, ih.mpr rfl⟩

theorem spans_words_iff {texts : List String} :
    (words texts).Spans d false before w after ↔ ∃ s ∈ texts, w = s.toList := by
  have none : ¬ (Pattern.notAhead .empty).Spans d false before w after := by
    intro spans
    cases spans
  unfold words
  induction texts with
  | nil => simpa [alts] using none
  | cons s texts ih =>
    cases texts with
    | nil => simpa [alts] using spans_lit_iff
    | cons s' texts =>
      have later : (alts (List.map lit (s' :: texts))).Spans d false before w after ↔
          ∃ s ∈ s' :: texts, w = s.toList := ih
      rw [List.exists_mem_cons_iff, ← later, ← spans_lit_iff]
      exact spans_alt

theorem rounds_set {negated : Bool} {items : List ClassItem} {n : Nat} :
    Rounds d ignoreCase (.set negated items) n before w after ↔
      w.length = n ∧ ∀ c ∈ w, (classHolds d ignoreCase items c != negated) = true := by
  constructor
  · intro rounds
    induction rounds with
    | nil => simp
    | cons one _ _ ih =>
      obtain ⟨c, rfl, holds⟩ := spans_set.mp one
      obtain ⟨rfl, all⟩ := ih
      exact ⟨by simp, List.forall_mem_cons.mpr ⟨holds, all⟩⟩
  · rintro ⟨rfl, all⟩
    induction w generalizing before with
    | nil => exact .nil
    | cons c w ih =>
      obtain ⟨holds, all⟩ := List.forall_mem_cons.mp all
      exact .cons (a := [c]) (spans_set.mpr ⟨c, rfl, holds⟩) (List.cons_ne_nil c []) (ih all)

theorem spans_rep_set {negated : Bool} {items : List ClassItem} {lo : Nat} {hi : Option Nat} :
    (Pattern.rep (.set negated items) lo hi).Spans d ignoreCase before w after ↔
      lo ≤ w.length ∧ (∀ h ∈ hi, w.length ≤ h) ∧
        ∀ c ∈ w, (classHolds d ignoreCase items c != negated) = true := by
  rw [spans_rep]
  constructor
  · rintro ⟨n, few, many, rounds⟩
    obtain ⟨rfl, all⟩ := rounds_set.mp rounds
    exact ⟨few, many, all⟩
  · rintro ⟨few, many, all⟩
    exact ⟨w.length, few, many, rounds_set.mpr ⟨rfl, all⟩⟩

/-- An option of what reads something is there or is not. -/
theorem spans_opt (reads : p.reads = true) : (opt p).Spans d ignoreCase before w after ↔
    w = [] ∨ p.Spans d ignoreCase before w after := by
  unfold opt
  rw [spans_rep]
  constructor
  · rintro ⟨n, -, many, rounds⟩
    have at_most := many 1 rfl
    cases rounds with
    | nil => exact .inl rfl
    | cons one reads rest =>
      cases rest with
      | nil =>
        rw [List.append_nil]
        exact .inr one
      | cons => omega
  · rintro (rfl | spans)
    · exact ⟨0, Nat.le_refl 0, fun h _ => Nat.zero_le h, .nil⟩
    · refine ⟨1, Nat.zero_le 1, fun h at_most => Nat.le_of_eq (Option.some.inj at_most), ?_⟩
      have one : Rounds d ignoreCase p 1 before (w ++ []) after :=
        .cons spans (spans_reads reads spans) .nil
      rwa [List.append_nil] at one

/-! ## Matches between word boundaries -/

/-- A word begins or ends between the two texts. -/
def AtEdge (d : CharData) (before after : List Char) : Prop :=
  before.head?.any d.word ≠ after.head?.any d.word

theorem atEdge_append_right (some_text : w ≠ []) :
    AtEdge d before (w ++ after) ↔ AtEdge d before w := by
  rw [AtEdge, AtEdge, List.head?_append_of_ne_nil _ some_text]

theorem atEdge_append_left (some_text : w ≠ []) :
    AtEdge d (w.reverse ++ before) after ↔ AtEdge d w.reverse after := by
  rw [AtEdge, AtEdge, List.head?_append_of_ne_nil _ (by simpa using some_text)]

theorem spans_seqs_append {ps qs : List Pattern} : ∀ {before w : List Char},
    (seqs (ps ++ qs)).Spans d ignoreCase before w after ↔
      ∃ a b, w = a ++ b ∧ (seqs ps).Spans d ignoreCase before a (b ++ after) ∧
        (seqs qs).Spans d ignoreCase (a.reverse ++ before) b after := by
  induction ps with
  | nil =>
    intro before w
    constructor
    · intro spans
      exact ⟨[], w, rfl, spans_empty.mpr rfl, spans⟩
    · rintro ⟨a, b, rfl, none, spans⟩
      obtain rfl := spans_empty.mp none
      exact spans
  | cons p ps ih =>
    intro before w
    constructor
    · intro spans
      obtain ⟨a, r, rfl, first, rest⟩ := spans_seq.mp spans
      obtain ⟨b, c, rfl, second, third⟩ := ih.mp rest
      refine ⟨a ++ b, c, (List.append_assoc a b c).symm, ?_, ?_⟩
      · refine spans_seq.mpr ⟨a, b, rfl, ?_, second⟩
        rwa [← List.append_assoc]
      · rwa [List.reverse_append, List.append_assoc]
    · rintro ⟨a, b, rfl, spans, third⟩
      obtain ⟨a, r, rfl, first, second⟩ := spans_seq.mp spans
      rw [List.append_assoc]
      refine spans_seq.mpr ⟨a, r ++ b, rfl, ?_, ih.mpr ⟨r, b, rfl, second, ?_⟩⟩
      · rwa [List.append_assoc]
      · rwa [List.reverse_append, List.append_assoc] at third

/-- A repetition at the end may go on. -/
theorem seqs_extend {ps : List Pattern} {negated : Bool} {items : List ClassItem} {lo : Nat}
    {v rest : List Char} (spans : (seqs (ps ++ [.rep (.set negated items) lo none])).Spans d
      ignoreCase before w (v ++ rest))
    (more : ∀ c ∈ v, (classHolds d ignoreCase items c != negated) = true) :
    (seqs (ps ++ [.rep (.set negated items) lo none])).Spans d ignoreCase before (w ++ v) rest := by
  obtain ⟨a, b, rfl, first, last⟩ := spans_seqs_append.mp spans
  obtain ⟨b, e, rfl, run, none⟩ := spans_seq.mp last
  obtain rfl := spans_empty.mp none
  obtain ⟨few, -, all⟩ := spans_rep_set.mp run
  rw [List.append_nil] at first ⊢
  rw [List.append_assoc]
  refine spans_seqs_append.mpr ⟨a, b ++ v, rfl, by rwa [List.append_assoc], ?_⟩
  refine spans_seq.mpr ⟨b ++ v, [], (List.append_nil _).symm, ?_, spans_empty.mpr rfl⟩
  refine spans_rep_set.mpr ⟨?_, (fun h many => by cases many), fun c mem => ?_⟩
  · rw [List.length_append]
    omega
  · rcases List.mem_append.mp mem with here | later
    · exact all c here
    · exact more c later

/-- The patterns between two word boundaries. -/
def bounded (ps : List Pattern) : Pattern := seqs (.boundary :: (ps ++ [.boundary]))

theorem spans_bounded {ps : List Pattern} : (bounded ps).Spans d ignoreCase before w after ↔
    AtEdge d before (w ++ after) ∧ (seqs ps).Spans d ignoreCase before w after ∧
      AtEdge d (w.reverse ++ before) after := by
  unfold bounded
  constructor
  · intro spans
    obtain ⟨a, r, rfl, first, rest⟩ := spans_seq.mp spans
    obtain ⟨rfl, edge⟩ := spans_boundary.mp first
    obtain ⟨b, c, rfl, inner, last⟩ := spans_seqs_append.mp rest
    obtain ⟨c, e, rfl, last, none⟩ := spans_seq.mp last
    obtain rfl := spans_empty.mp none
    obtain ⟨rfl, edge'⟩ := spans_boundary.mp last
    simp only [List.nil_append, List.append_nil, List.reverse_nil] at *
    exact ⟨edge, inner, edge'⟩
  · rintro ⟨edge, inner, edge'⟩
    refine spans_seq.mpr ⟨[], w, rfl, spans_boundary.mpr ⟨rfl, edge⟩, ?_⟩
    refine spans_seqs_append.mpr ⟨w, [], (List.append_nil w).symm, inner, ?_⟩
    exact spans_seq.mpr ⟨[], [], rfl, spans_boundary.mpr ⟨rfl, edge'⟩, spans_empty.mpr rfl⟩

/-- Every match is between two word boundaries. -/
def Pattern.Wordwise (d : CharData) (ignoreCase : Bool) (p : Pattern) : Prop :=
  ∀ {before m after : List Char}, p.Spans d ignoreCase before m after →
    AtEdge d before (m ++ after) ∧ AtEdge d (m.reverse ++ before) after

section
variable {text mark : List Char} {left right : List Piece}

/-- What stands before a kept stretch: the same, or a mark, where a match ended. -/
theorem source_before (left : List Piece) :
    (left.flatMap (Piece.result mark)).reverse.head? = (left.flatMap Piece.source).reverse.head? ∨
      ∃ left' m, left = left' ++ [.replaced m] := by
  rcases List.eq_nil_or_concat left with rfl | ⟨left, piece, rfl⟩
  · exact .inl rfl
  · rw [List.concat_eq_append]
    cases piece with
    | kept c => exact .inl (by simp [Piece.result, Piece.source])
    | replaced m => exact .inr ⟨left, m, rfl⟩

theorem source_behind (right : List Piece) :
    (right.flatMap (Piece.result mark)).head? = (right.flatMap Piece.source).head? ∨
      ∃ m right', right = .replaced m :: right' := by
  match right with
  | [] => exact .inl rfl
  | .kept c :: right => exact .inl rfl
  | .replaced m :: right => exact .inr ⟨m, right, rfl⟩

/-- A mark makes no boundary before a kept stretch that was not there. -/
theorem edge_before (reads : p.reads = true) (wordwise : p.Wordwise d ignoreCase)
    (some_text : w ≠ [])
    (split : p.pieces d ignoreCase text = left ++ w.map .kept ++ right)
    (edge : AtEdge d (left.flatMap (Piece.result mark)).reverse w) :
    AtEdge d (left.flatMap Piece.source).reverse w := by
  rcases @source_before mark left with same | ⟨left, m, rfl⟩
  · rwa [AtEdge, same] at edge
  · rw [List.append_assoc, List.append_assoc, List.singleton_append] at split
    have fits := pieces_fit reads split
    rw [List.flatMap_append, flatMap_kept w fun _ => rfl] at fits
    have edge := (wordwise fits.spans).2
    rw [atEdge_append_right some_text] at edge
    simpa [Piece.source] using edge

theorem edge_behind (reads : p.reads = true) (wordwise : p.Wordwise d ignoreCase)
    (some_text : w ≠ [])
    (split : p.pieces d ignoreCase text = left ++ w.map .kept ++ right)
    (edge : AtEdge d w.reverse (right.flatMap (Piece.result mark))) :
    AtEdge d w.reverse (right.flatMap Piece.source) := by
  rcases @source_behind mark right with same | ⟨m, right, rfl⟩
  · rwa [AtEdge, same] at edge
  · have fits := pieces_fit reads split
    rw [List.flatMap_append, flatMap_kept w fun _ => rfl, List.reverse_append] at fits
    have edge := (wordwise fits.spans).1
    rwa [atEdge_append_left some_text] at edge

end

end

end Regex
