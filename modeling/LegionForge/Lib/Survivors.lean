import LegionForge.Lib.Pieces

/-!
# Where a match in a result comes from

A substitution puts a mark in place of each match. A stretch of the result that has no part
of its own in a mark (`Apart`) stood in the text before, and is kept (`keeps_of_sub`).

A pattern of sets only, without look-arounds and boundaries (`plain`), matches a stretch
whatever stands next to it, and with it every stretch whose characters are read in the same
way (`spans_pairs`).
-/

namespace Regex

/-! ## Stretches that are apart from a mark -/

/-- Neither is within the other, and no end of one is a beginning of the other. -/
structure Apart (mark w : List Char) : Prop where
  inside : ¬ w <:+: mark
  around : ¬ mark <:+: w
  start : ∀ s, s ≠ [] → s <:+ mark → ¬ s <+: w
  stop : ∀ s, s ≠ [] → s <+: mark → ¬ s <:+ w

section
variable {d : CharData} {ignoreCase : Bool} {p : Pattern} {mark w : List Char}

theorem Apart.ne_nil (apart : Apart mark w) : w ≠ [] := by
  rintro rfl
  exact apart.inside List.nil_infix

/-- From within the stretch on, everything is kept to its end. -/
theorem pieces_of_rest (apart : Apart mark w) : ∀ {v y : List Char} {pieces : List Piece},
    v <:+ w → pieces.flatMap (Piece.result mark) = v ++ y →
    ∃ right, pieces = v.map .kept ++ right ∧ right.flatMap (Piece.result mark) = y := by
  intro v
  induction v with
  | nil =>
    intro y pieces _ result
    exact ⟨pieces, rfl, result⟩
  | cons c v ih =>
    intro y pieces suffix result
    match pieces with
    | [] => cases result
    | .kept c' :: rest =>
      rw [List.flatMap_cons, Piece.result, List.singleton_append, List.cons_append,
        List.cons.injEq] at result
      obtain ⟨rfl, result⟩ := result
      obtain ⟨right, rfl, right_eq⟩ := ih ((List.suffix_cons c' v).trans suffix) result
      exact ⟨right, rfl, right_eq⟩
    | .replaced text :: rest =>
      rw [List.flatMap_cons, Piece.result] at result
      rcases List.append_eq_append_iff.mp result with ⟨more, whole, -⟩ | ⟨more, whole, -⟩
      · have within : mark <+: c :: v := ⟨more, whole.symm⟩
        exact absurd (within.isInfix.trans suffix.isInfix) apart.around
      · have within : c :: v <+: mark := ⟨more, whole.symm⟩
        exact absurd suffix (apart.stop _ (List.cons_ne_nil c v) within)

/-- The pieces of the stretch are kept. -/
theorem pieces_of_result (apart : Apart mark w) {y : List Char} : ∀ {pieces : List Piece}
    {x : List Char}, pieces.flatMap (Piece.result mark) = x ++ w ++ y →
    ∃ left right, pieces = left ++ w.map .kept ++ right ∧
      left.flatMap (Piece.result mark) = x ∧ right.flatMap (Piece.result mark) = y := by
  intro pieces
  induction pieces with
  | nil =>
    intro x result
    have none : w = [] := by
      have all := List.append_eq_nil_iff.mp result.symm
      exact (List.append_eq_nil_iff.mp all.1).2
    exact absurd none apart.ne_nil
  | cons piece rest ih =>
    intro x result
    cases x with
    | nil =>
      rw [List.nil_append] at result
      obtain ⟨right, split, right_eq⟩ := pieces_of_rest apart List.suffix_rfl result
      exact ⟨[], right, split, rfl, right_eq⟩
    | cons c x =>
      cases piece with
      | kept c' =>
        simp only [List.flatMap_cons, Piece.result, List.cons_append, List.cons.injEq] at result
        obtain ⟨rfl, result⟩ := result
        obtain ⟨left, right, rfl, left_eq, right_eq⟩ := ih result
        refine ⟨.kept c' :: left, right, rfl, ?_, right_eq⟩
        rw [List.flatMap_cons, left_eq]
        rfl
      | replaced text =>
        rw [List.flatMap_cons, Piece.result, List.append_assoc] at result
        -- the mark ends before the stretch, or has a part in it
        have before : ∀ {x' : List Char}, c :: x = mark ++ x' →
            rest.flatMap (Piece.result mark) = x' ++ w ++ y →
            ∃ left right, .replaced text :: rest = left ++ w.map .kept ++ right ∧
              left.flatMap (Piece.result mark) = c :: x ∧
              right.flatMap (Piece.result mark) = y := by
          intro x' x_eq result'
          obtain ⟨left, right, rfl, left_eq, right_eq⟩ := ih result'
          refine ⟨.replaced text :: left, right, rfl, ?_, right_eq⟩
          rw [List.flatMap_cons, left_eq, x_eq]
          rfl
        rcases List.append_eq_append_iff.mp result with ⟨x', x_eq, rest_eq⟩ | ⟨r, mark_eq, rest_eq⟩
        · exact before x_eq (by rw [rest_eq, List.append_assoc])
        · by_cases none : r = []
          · subst none
            rw [List.append_nil] at mark_eq
            exact before (by rw [mark_eq, List.append_nil]) (by simpa using rest_eq.symm)
          · have tail : r <:+ mark := ⟨c :: x, mark_eq.symm⟩
            rcases List.append_eq_append_iff.mp rest_eq with ⟨more, r_eq, -⟩ | ⟨more, w_eq, -⟩
            · have within : w <:+: r := ⟨[], more, by rw [r_eq]; rfl⟩
              exact absurd (within.trans tail.isInfix) apart.inside
            · exact absurd ⟨more, w_eq.symm⟩ (apart.start r none tail)

/-- A stretch of the result that is apart from the mark is one of the text, and kept. -/
theorem keeps_of_sub (apart : Apart mark w) {text x y : List Char}
    (result : p.sub d ignoreCase mark text = x ++ w ++ y) :
    ∃ around : List Char × List Char, text = around.1 ++ w ++ around.2 ∧
      p.Keeps d ignoreCase mark w around (x, y) := by
  have pieces : (p.pieces d ignoreCase text).flatMap (Piece.result mark) = x ++ w ++ y := by
    rw [← result]
    exact piecesFrom_result
  obtain ⟨left, right, split, left_eq, right_eq⟩ := pieces_of_result apart pieces
  have source : (p.pieces d ignoreCase text).flatMap Piece.source = text := piecesFrom_source
  rw [split, List.flatMap_append, List.flatMap_append, flatMap_kept w fun _ => rfl] at source
  refine ⟨(left.flatMap Piece.source, right.flatMap Piece.source), source.symm, left, right, ?_,
    rfl, left_eq, right_eq⟩
  rw [source, split]

end

/-! ## Plain patterns -/

/-- Sets of certain items, one after the other, instead of each other or again and again. -/
def Pattern.plain (allowed : ClassItem → Bool) : Pattern → Bool
  | .set negated items => !negated && items.all allowed
  | .empty => true
  | .seq p q | .alt p q => p.plain allowed && q.plain allowed
  | .rep p _ _ => p.plain allowed
  | .boundary | .notBehind _ | .notAhead _ => false

/-- What the first or the last character is read as, and whether there may be none. -/
def Pattern.edge (first : Bool) : Pattern → List ClassItem × Bool
  | .set _ items => (items, false)
  | .seq p q =>
    let (outer, inner) := if first then (p.edge first, q.edge first)
      else (q.edge first, p.edge first)
    (outer.1 ++ (if outer.2 then inner.1 else []), outer.2 && inner.2)
  | .alt p q => ((p.edge first).1 ++ (q.edge first).1, (p.edge first).2 || (q.edge first).2)
  | .rep p lo _ => ((p.edge first).1, (p.edge first).2 || lo = 0)
  | .empty | .boundary | .notBehind _ | .notAhead _ => ([], true)

/-- The first or the last character. -/
def edgeOf (first : Bool) (w : List Char) : Option Char := if first then w.head? else w.getLast?

/-- A match that ignores case reads the character as the item. -/
def Reads (d : CharData) (c : Char) (item : ClassItem) : Prop :=
  (d.variants c).any (item.holds d) = true

instance (d : CharData) (c : Char) (item : ClassItem) : Decidable (Reads d c item) :=
  inferInstanceAs (Decidable (_ = true))

/-- Some item is what the character is read as. -/
def Readable (allowed : ClassItem → Bool) (d : CharData) (c : Char) : Prop :=
  ∃ item, allowed item = true ∧ Reads d c item

/-- Whatever the one character is read as, so is the other. -/
def ReadsAs (allowed : ClassItem → Bool) (d : CharData) (c : Char) (d' : CharData) (c' : Char) :
    Prop :=
  ∀ item, allowed item = true → Reads d c item → Reads d' c' item

section
variable {d d' : CharData} {allowed : ClassItem → Bool} {p : Pattern}

theorem Pattern.plain_mono {allowed' : ClassItem → Bool}
    (more : ∀ item, allowed item = true → allowed' item = true) :
    p.plain allowed = true → p.plain allowed' = true := by
  induction p with
  | set negated items =>
    intro plain
    obtain ⟨positive, all⟩ := Bool.and_eq_true_iff.mp plain
    refine Bool.and_eq_true_iff.mpr ⟨positive, List.all_eq_true.mpr fun item mem => ?_⟩
    exact more item (List.all_eq_true.mp all item mem)
  | empty => exact id
  | seq p q ihp ihq | alt p q ihp ihq =>
    intro plain
    obtain ⟨plain_p, plain_q⟩ := Bool.and_eq_true_iff.mp plain
    exact Bool.and_eq_true_iff.mpr ⟨ihp plain_p, ihq plain_q⟩
  | rep p lo hi ih => exact ih
  | boundary | notBehind | notAhead =>
    intro plain
    cases plain

theorem ReadsAs.readable {c c' : Char} (reads : ReadsAs allowed d c d' c')
    (readable : Readable allowed d c) : Readable allowed d' c' := by
  obtain ⟨item, is_allowed, holds⟩ := readable
  exact ⟨item, is_allowed, reads item is_allowed holds⟩

theorem classHolds_true_iff {items : List ClassItem} {c : Char} :
    classHolds d true items c = true ↔ ∃ item ∈ items, Reads d c item := by
  simp only [classHolds, if_true, List.any_eq_true, Reads]
  constructor
  · rintro ⟨v, variant, item, mem, holds⟩
    exact ⟨item, mem, v, variant, holds⟩
  · rintro ⟨item, mem, v, variant, holds⟩
    exact ⟨v, variant, item, mem, holds⟩

theorem reads_char {x c : Char} : Reads d c (.char x) ↔ x ∈ d.variants c := by
  simp [Reads, ClassItem.holds]

/-- The one character of a set, and the item it is read as. -/
theorem spans_plain_set {negated : Bool} {items : List ClassItem} {before w after : List Char}
    (plain : (Pattern.set negated items).plain allowed = true)
    (spans : (Pattern.set negated items).Spans d true before w after) :
    negated = false ∧ ∃ c, w = [c] ∧ ∃ item ∈ items, allowed item = true ∧ Reads d c item := by
  obtain ⟨positive, all⟩ := Bool.and_eq_true_iff.mp plain
  have positive : negated = false := by simpa using positive
  subst positive
  obtain ⟨c, rfl, holds⟩ := spans_set.mp spans
  rw [Bool.bne_false, classHolds_true_iff] at holds
  obtain ⟨item, mem, reads⟩ := holds
  exact ⟨rfl, c, rfl, item, mem, List.all_eq_true.mp all item mem, reads⟩

theorem rounds_all {n : Nat} {before w after : List Char} {P : Char → Prop}
    (one : ∀ {before w after : List Char}, p.Spans d true before w after → ∀ c ∈ w, P c)
    (rounds : Rounds d true p n before w after) : ∀ c ∈ w, P c := by
  induction rounds with
  | nil =>
    intro c mem
    cases mem
  | cons first _ _ ih =>
    intro c mem
    rcases List.mem_append.mp mem with here | later
    · exact one first c here
    · exact ih c later

/-- What a plain pattern matches is read by its sets. -/
theorem spans_readable : ∀ {before w after : List Char}, p.plain allowed = true →
    p.Spans d true before w after → ∀ c ∈ w, Readable allowed d c := by
  induction p with
  | set negated items =>
    intro before w after plain spans c mem
    obtain ⟨-, c', rfl, item, -, is_allowed, reads⟩ := spans_plain_set plain spans
    obtain rfl := List.mem_singleton.mp mem
    exact ⟨item, is_allowed, reads⟩
  | empty =>
    intro before w after _ spans c mem
    rw [spans_empty.mp spans] at mem
    cases mem
  | seq p q ihp ihq =>
    intro before w after plain spans c mem
    obtain ⟨plain_p, plain_q⟩ := Bool.and_eq_true_iff.mp plain
    obtain ⟨a, b, rfl, first, second⟩ := spans_seq.mp spans
    rcases List.mem_append.mp mem with here | later
    · exact ihp plain_p first c here
    · exact ihq plain_q second c later
  | alt p q ihp ihq =>
    intro before w after plain spans
    obtain ⟨plain_p, plain_q⟩ := Bool.and_eq_true_iff.mp plain
    rcases spans_alt.mp spans with first | second
    · exact ihp plain_p first
    · exact ihq plain_q second
  | rep p lo hi ih =>
    intro before w after plain spans
    obtain ⟨n, -, -, rounds⟩ := spans_rep.mp spans
    exact rounds_all (ih plain) rounds
  | boundary | notBehind | notAhead =>
    intro before w after plain
    cases plain

theorem edgeOf_append (first : Bool) (a b : List Char) :
    edgeOf first (a ++ b) =
      if first then (edgeOf first a).or (edgeOf first b)
      else (edgeOf first b).or (edgeOf first a) := by
  cases first with
  | true => exact List.head?_append
  | false => exact List.getLast?_append

/-- The edge is as the pattern says, or there is none. -/
def EdgeRead (d : CharData) (items : List ClassItem) (none : Bool) : Option Char → Prop
  | .none => none = true
  | some c => ∃ item ∈ items, Reads d c item

theorem EdgeRead.or {outer inner : List ClassItem} {none none' : Bool} {a b : Option Char}
    (first : EdgeRead d outer none a) (second : EdgeRead d inner none' b) :
    EdgeRead d (outer ++ (if none then inner else [])) (none && none') (a.or b) := by
  cases a with
  | none =>
    have first : none = true := first
    subst first
    cases b with
    | none => exact second
    | some c =>
      obtain ⟨item, mem, reads⟩ := second
      exact ⟨item, List.mem_append_right outer mem, reads⟩
  | some c =>
    obtain ⟨item, mem, reads⟩ := first
    exact ⟨item, List.mem_append_left _ mem, reads⟩

theorem EdgeRead.mono {items items' : List ClassItem} {none none' : Bool} {c : Option Char}
    (read : EdgeRead d items none c) (more : ∀ item ∈ items, item ∈ items')
    (also : none = true → none' = true) : EdgeRead d items' none' c := by
  cases c with
  | none => exact also read
  | some c =>
    obtain ⟨item, mem, reads⟩ := read
    exact ⟨item, more item mem, reads⟩

theorem rounds_edge {n : Nat} {before w after : List Char} {items : List ClassItem}
    {none first : Bool} (one : ∀ {before w after : List Char}, p.Spans d true before w after →
      EdgeRead d items none (edgeOf first w))
    (rounds : Rounds d true p n before w after) :
    EdgeRead d items (none || n = 0) (edgeOf first w) := by
  induction rounds with
  | nil =>
    have no_edge : edgeOf first [] = .none := by cases first <;> rfl
    rw [no_edge]
    simp [EdgeRead]
  | @cons n before a b after first_round reads rest ih =>
    have here := one first_round
    -- whichever of the two comes first, the edge is one that the pattern reads
    have same : ∀ {empty : Bool}, ∀ item ∈ items ++ (if empty then items else []),
        item ∈ items := by
      intro empty item mem
      rcases List.mem_append.mp mem with outer | inner
      · exact outer
      · split at inner
        · exact inner
        · cases inner
    rw [edgeOf_append]
    cases first with
    | true =>
      refine (here.or ih).mono same fun both => ?_
      simp at both
      simp [both.1]
    | false =>
      refine (ih.or here).mono same fun both => ?_
      simp at both
      simp [both.2]

/-- What stands at an edge of a match. -/
theorem spans_edge (first : Bool) : ∀ {before w after : List Char}, p.plain allowed = true →
    p.Spans d true before w after →
    EdgeRead d (p.edge first).1 (p.edge first).2 (edgeOf first w) := by
  induction p with
  | set negated items =>
    intro before w after plain spans
    obtain ⟨-, c, rfl, item, mem, -, reads⟩ := spans_plain_set plain spans
    have edge : edgeOf first [c] = some c := by cases first <;> rfl
    rw [edge]
    exact ⟨item, mem, reads⟩
  | empty =>
    intro before w after _ spans
    rw [spans_empty.mp spans]
    cases first <;> rfl
  | seq p q ihp ihq =>
    intro before w after plain spans
    obtain ⟨plain_p, plain_q⟩ := Bool.and_eq_true_iff.mp plain
    obtain ⟨a, b, rfl, left, right⟩ := spans_seq.mp spans
    rw [edgeOf_append]
    cases first with
    | true => exact (ihp plain_p left).or (ihq plain_q right)
    | false => exact (ihq plain_q right).or (ihp plain_p left)
  | alt p q ihp ihq =>
    intro before w after plain spans
    obtain ⟨plain_p, plain_q⟩ := Bool.and_eq_true_iff.mp plain
    rcases spans_alt.mp spans with left | right
    · refine (ihp plain_p left).mono (fun item mem => List.mem_append_left _ mem) fun none => ?_
      exact Bool.or_eq_true_iff.mpr (.inl none)
    · refine (ihq plain_q right).mono (fun item mem => List.mem_append_right _ mem) fun none => ?_
      exact Bool.or_eq_true_iff.mpr (.inr none)
  | rep p lo hi ih =>
    intro before w after plain spans
    obtain ⟨n, few, -, rounds⟩ := spans_rep.mp spans
    refine (rounds_edge (ih plain) rounds).mono (fun item mem => mem) fun none => ?_
    rcases Bool.or_eq_true_iff.mp none with empty | zero
    · exact Bool.or_eq_true_iff.mpr (.inl empty)
    · have zero : n = 0 := of_decide_eq_true zero
      exact Bool.or_eq_true_iff.mpr (.inr (decide_eq_true (by omega)))
  | boundary | notBehind | notAhead =>
    intro before w after plain
    cases plain

theorem rounds_pairs {n : Nat} {before w after : List Char} {R : Char × Char → Prop}
    (one : ∀ {before before' after after' : List Char} {zs : List (Char × Char)},
      (∀ z ∈ zs, R z) → p.Spans d true before (zs.map Prod.fst) after →
      p.Spans d' true before' (zs.map Prod.snd) after')
    (rounds : Rounds d true p n before w after) : ∀ {before' after' : List Char}
    {zs : List (Char × Char)}, (∀ z ∈ zs, R z) → w = zs.map Prod.fst →
    Rounds d' true p n before' (zs.map Prod.snd) after' := by
  induction rounds with
  | nil =>
    intro before' after' zs _ none
    rw [List.map_eq_nil_iff.mp none.symm]
    exact .nil
  | cons first reads _ ih =>
    intro before' after' zs related split
    obtain ⟨zs₁, zs₂, rfl, rfl, rfl⟩ := List.map_eq_append_iff.mp split.symm
    rw [List.map_append]
    refine .cons (one (fun z mem => related z (List.mem_append_left zs₂ mem)) first) ?_
      (ih (fun z mem => related z (List.mem_append_right zs₁ mem)) rfl)
    simpa using reads

/-- A plain pattern matches whatever is read as what it matches. -/
theorem spans_pairs : ∀ {before before' after after' : List Char} {zs : List (Char × Char)},
    p.plain allowed = true → (∀ z ∈ zs, ReadsAs allowed d z.1 d' z.2) →
    p.Spans d true before (zs.map Prod.fst) after →
    p.Spans d' true before' (zs.map Prod.snd) after' := by
  induction p with
  | set negated items =>
    intro before before' after after' zs plain reads spans
    obtain ⟨rfl, c, single, item, mem, is_allowed, read⟩ := spans_plain_set plain spans
    obtain ⟨z, zs, rfl⟩ := List.exists_cons_of_ne_nil (l := zs) (by rintro rfl; cases single)
    obtain ⟨first, rest⟩ := List.cons.inj single
    rw [List.map_eq_nil_iff.mp rest]
    refine spans_set.mpr ⟨z.2, rfl, ?_⟩
    rw [Bool.bne_false, classHolds_true_iff]
    exact ⟨item, mem, reads z List.mem_cons_self item is_allowed (first ▸ read)⟩
  | empty =>
    intro before before' after after' zs _ _ spans
    rw [List.map_eq_nil_iff.mp (spans_empty.mp spans)]
    exact spans_empty.mpr rfl
  | seq p q ihp ihq =>
    intro before before' after after' zs plain reads spans
    obtain ⟨plain_p, plain_q⟩ := Bool.and_eq_true_iff.mp plain
    obtain ⟨a, b, split, first, second⟩ := spans_seq.mp spans
    obtain ⟨zs₁, zs₂, rfl, rfl, rfl⟩ := List.map_eq_append_iff.mp split
    refine spans_seq.mpr ⟨_, _, List.map_append, ?_, ?_⟩
    · exact ihp plain_p (fun z mem => reads z (List.mem_append_left zs₂ mem)) first
    · exact ihq plain_q (fun z mem => reads z (List.mem_append_right zs₁ mem)) second
  | alt p q ihp ihq =>
    intro before before' after after' zs plain reads spans
    obtain ⟨plain_p, plain_q⟩ := Bool.and_eq_true_iff.mp plain
    rcases spans_alt.mp spans with first | second
    · exact spans_alt.mpr (.inl (ihp plain_p reads first))
    · exact spans_alt.mpr (.inr (ihq plain_q reads second))
  | rep p lo hi ih =>
    intro before before' after after' zs plain reads spans
    obtain ⟨n, few, many, rounds⟩ := spans_rep.mp spans
    exact spans_rep.mpr ⟨n, few, many, rounds_pairs (ih plain) rounds reads rfl⟩
  | boundary | notBehind | notAhead =>
    intro before before' after after' zs plain
    cases plain

/-- A plain pattern matches a stretch wherever it stands. -/
theorem spans_anywhere {before before' w after after' : List Char}
    (plain : p.plain allowed = true) (spans : p.Spans d true before w after) :
    p.Spans d true before' w after' := by
  have pairs := @spans_pairs d d allowed p before before' after after' (w.map fun c => (c, c)) plain
  simp only [List.map_map, Function.comp_def, List.map_id'] at pairs
  refine pairs (fun z mem => ?_) spans
  obtain ⟨c, -, rfl⟩ := List.mem_map.mp mem
  exact fun _ _ => id

/-- A match that is found somewhere. -/
theorem exists_spans_of_searchFrom : ∀ {text before : List Char},
    p.searchFrom d true before text = true →
    ∃ x w y, text = x ++ w ++ y ∧ p.Spans d true (x.reverse ++ before) w y := by
  have here : ∀ {text before : List Char}, (!(p.ends d true ⟨before, text⟩).isEmpty) = true →
      ∃ x w y, text = x ++ w ++ y ∧ p.Spans d true (x.reverse ++ before) w y := by
    intro text before some_end
    have some_end : p.ends d true ⟨before, text⟩ ≠ [] := by simpa using some_end
    obtain ⟨t, mem⟩ := List.exists_mem_of_ne_nil _ some_end
    obtain ⟨w, after, -, spans⟩ := spans_of_mem mem
    exact ⟨[], w, t.after, after, spans⟩
  intro text
  induction text with
  | nil =>
    intro before found
    exact here found
  | cons c text ih =>
    intro before found
    rcases Bool.or_eq_true_iff.mp found with now | later
    · exact here now
    · obtain ⟨x, w, y, rfl, spans⟩ := ih later
      refine ⟨c :: x, w, y, rfl, ?_⟩
      rwa [List.reverse_cons, List.append_assoc]

theorem search_iff (plain : p.plain allowed = true) {text : List Char} :
    p.search d true text = true ↔
      ∃ x w y, text = x ++ w ++ y ∧ p.Spans d true [] w [] := by
  constructor
  · intro found
    obtain ⟨x, w, y, split, spans⟩ := exists_spans_of_searchFrom found
    exact ⟨x, w, y, split, spans_anywhere plain spans⟩
  · rintro ⟨x, w, y, rfl, spans⟩
    exact search_of_spans (spans_anywhere plain spans)

end

/-! ## Characters that every match has -/

/-- Every match has a character that a certain item is read as. -/
def Pattern.needs (certain : ClassItem → Bool) : Pattern → Bool
  | .set negated items => !negated && items.all certain
  | .seq p q => p.needs certain || q.needs certain
  | .alt p q => p.needs certain && q.needs certain
  | .rep p lo _ => p.needs certain && decide (0 < lo)
  | .empty | .boundary | .notBehind _ | .notAhead _ => false

/-- No match reads anything. -/
def Pattern.still : Pattern → Bool
  | .boundary | .notBehind _ | .notAhead _ | .empty => true
  | .set _ _ | .seq _ _ | .alt _ _ | .rep _ _ _ => false

/-- Every match begins with a character that a certain item is read as. -/
def Pattern.starts (certain : ClassItem → Bool) : Pattern → Bool
  | .set negated items => !negated && items.all certain
  | .seq p q => p.starts certain || (p.still && q.starts certain)
  | .alt p q => p.starts certain && q.starts certain
  | .rep p lo _ => p.starts certain && decide (0 < lo)
  | .empty | .boundary | .notBehind _ | .notAhead _ => false

section
variable {d : CharData} {certain : ClassItem → Bool} {p : Pattern}

theorem rounds_first {n lo : Nat} {before w after : List Char} (some_rounds : 0 < lo)
    (few : lo ≤ n) (rounds : Rounds d true p n before w after) :
    ∃ a b, w = a ++ b ∧ p.Spans d true before a (b ++ after) := by
  cases rounds with
  | nil => omega
  | cons one _ _ => exact ⟨_, _, rfl, one⟩

theorem spans_needs : ∀ {before w after : List Char}, p.needs certain = true →
    p.Spans d true before w after → ∃ c ∈ w, Readable certain d c := by
  induction p with
  | set negated items =>
    intro before w after needs spans
    obtain ⟨-, c, rfl, item, -, is_certain, reads⟩ := spans_plain_set needs spans
    exact ⟨c, List.mem_singleton_self c, item, is_certain, reads⟩
  | seq p q ihp ihq =>
    intro before w after needs spans
    obtain ⟨a, b, rfl, first, second⟩ := spans_seq.mp spans
    rcases Bool.or_eq_true_iff.mp needs with left | right
    · obtain ⟨c, mem, readable⟩ := ihp left first
      exact ⟨c, List.mem_append_left b mem, readable⟩
    · obtain ⟨c, mem, readable⟩ := ihq right second
      exact ⟨c, List.mem_append_right a mem, readable⟩
  | alt p q ihp ihq =>
    intro before w after needs spans
    obtain ⟨left, right⟩ := Bool.and_eq_true_iff.mp needs
    rcases spans_alt.mp spans with first | second
    · exact ihp left first
    · exact ihq right second
  | rep p lo hi ih =>
    intro before w after needs spans
    obtain ⟨inner, some_rounds⟩ := Bool.and_eq_true_iff.mp needs
    obtain ⟨n, few, -, rounds⟩ := spans_rep.mp spans
    obtain ⟨a, b, rfl, one⟩ := rounds_first (of_decide_eq_true some_rounds) few rounds
    obtain ⟨c, mem, readable⟩ := ih inner one
    exact ⟨c, List.mem_append_left b mem, readable⟩
  | empty | boundary | notBehind | notAhead =>
    intro before w after needs
    cases needs

theorem spans_still {before w after : List Char} (still : p.still = true)
    (spans : p.Spans d true before w after) : w = [] := by
  cases p with
  | boundary => exact (spans_boundary.mp spans).1
  | empty => exact spans_empty.mp spans
  | notBehind text => exact spans_notBehind spans
  | notAhead p => exact spans_notAhead spans
  | set | seq | alt | rep => cases still

theorem spans_starts : ∀ {before w after : List Char}, p.starts certain = true →
    p.Spans d true before w after → ∃ c rest, w = c :: rest ∧ Readable certain d c := by
  induction p with
  | set negated items =>
    intro before w after starts spans
    obtain ⟨-, c, rfl, item, -, is_certain, reads⟩ := spans_plain_set starts spans
    exact ⟨c, [], rfl, item, is_certain, reads⟩
  | seq p q ihp ihq =>
    intro before w after starts spans
    obtain ⟨a, b, rfl, first, second⟩ := spans_seq.mp spans
    rcases Bool.or_eq_true_iff.mp starts with left | right
    · obtain ⟨c, rest, rfl, readable⟩ := ihp left first
      exact ⟨c, rest ++ b, rfl, readable⟩
    · obtain ⟨still, right⟩ := Bool.and_eq_true_iff.mp right
      obtain rfl := spans_still still first
      exact ihq right second
  | alt p q ihp ihq =>
    intro before w after starts spans
    obtain ⟨left, right⟩ := Bool.and_eq_true_iff.mp starts
    rcases spans_alt.mp spans with first | second
    · exact ihp left first
    · exact ihq right second
  | rep p lo hi ih =>
    intro before w after starts spans
    obtain ⟨inner, some_rounds⟩ := Bool.and_eq_true_iff.mp starts
    obtain ⟨n, few, -, rounds⟩ := spans_rep.mp spans
    obtain ⟨a, b, rfl, one⟩ := rounds_first (of_decide_eq_true some_rounds) few rounds
    obtain ⟨c, rest, rfl, readable⟩ := ih inner one
    exact ⟨c, rest ++ b, rfl, readable⟩
  | empty | boundary | notBehind | notAhead =>
    intro before w after starts
    cases starts

end

/-! ## With regard to case -/

/-- Tables by which every character is read as itself only. -/
def CharData.exact (d : CharData) : CharData := { d with variants := fun c => [c] }

section
variable {d : CharData}

theorem classHolds_exact (items : List ClassItem) (c : Char) :
    classHolds d false items c = classHolds d.exact true items c := by
  have item : ∀ i : ClassItem, i.holds d c = i.holds d.exact c := by
    intro i
    cases i <;> rfl
  simp [classHolds, CharData.exact, item]

/-- To regard case is to ignore it by tables that know of none. -/
theorem ends_exact (p : Pattern) : p.ends d false = p.ends d.exact true := by
  induction p with
  | set negated items =>
    funext s
    simp only [Pattern.ends, classHolds_exact]
  | empty => rfl
  | seq p q ihp ihq =>
    funext s
    simp only [Pattern.ends, ihp, ihq]
  | alt p q ihp ihq =>
    funext s
    simp only [Pattern.ends, ihp, ihq]
  | rep p lo hi ih =>
    funext s
    simp only [Pattern.ends, ih]
  | boundary => rfl
  | notBehind text => rfl
  | notAhead p ih =>
    funext s
    simp only [Pattern.ends, ih]

theorem spans_exact {p : Pattern} {before w after : List Char} :
    p.Spans d false before w after ↔ p.Spans d.exact true before w after := by
  unfold Pattern.Spans
  rw [ends_exact]

theorem spans_anywhere_exact {allowed : ClassItem → Bool} {p : Pattern}
    {before before' w after after' : List Char} (plain : p.plain allowed = true)
    (spans : p.Spans d false before w after) : p.Spans d false before' w after' :=
  spans_exact.mpr (spans_anywhere plain (spans_exact.mp spans))

theorem searchFrom_exact {p : Pattern} {text : List Char} : ∀ {before : List Char},
    p.searchFrom d false before text = p.searchFrom d.exact true before text := by
  induction text with
  | nil =>
    intro before
    rw [Pattern.searchFrom, Pattern.searchFrom, ends_exact]
  | cons c text ih =>
    intro before
    rw [Pattern.searchFrom, Pattern.searchFrom, ends_exact, ih]

/-- What is not found is nowhere. -/
theorem search_exact_iff {p : Pattern} {text : List Char} : p.search d false text = true ↔
    ∃ x w y, text = x ++ w ++ y ∧ p.Spans d false x.reverse w y := by
  constructor
  · intro found
    rw [Pattern.search, searchFrom_exact] at found
    obtain ⟨x, w, y, split, spans⟩ := exists_spans_of_searchFrom found
    rw [List.append_nil] at spans
    exact ⟨x, w, y, split, spans_exact.mpr spans⟩
  · rintro ⟨x, w, y, rfl, spans⟩
    exact search_of_spans spans

end

end Regex
