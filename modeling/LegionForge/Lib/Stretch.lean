import LegionForge.Lib.Regex

/-!
# Stretches of a text

`Spans` says that a pattern matches a stretch of a text where it stands. It goes down the
pattern: a sequence cuts the stretch in two, a repetition in rounds. Only a word boundary
looks at what is next to the stretch, and only at whether that is a word character; where
the pattern has one just before or behind what begins or ends in a word character
(`edged`), a neighbour that stops being one does no harm (`spans_calmer`).
-/

namespace Regex

/-! ## Matching a stretch -/

section
variable (d : CharData) (ignoreCase : Bool)

/-- The pattern matches `w` between what was read, last character first, and what is left. -/
def Pattern.Spans (p : Pattern) (before w after : List Char) : Prop :=
  ⟨w.reverse ++ before, after⟩ ∈ p.ends d ignoreCase ⟨before, w ++ after⟩

instance : DecidableEq Place := fun s t =>
  decidable_of_iff (s.before = t.before ∧ s.after = t.after) (by cases s; cases t; simp)

instance (p : Pattern) (before w after : List Char) :
    Decidable (p.Spans d ignoreCase before w after) :=
  inferInstanceAs (Decidable (_ ∈ _))

/-- So many rounds, each of which reads something. -/
inductive Rounds (p : Pattern) : Nat → List Char → List Char → List Char → Prop
  | nil {before after : List Char} : Rounds p 0 before [] after
  | cons {n : Nat} {before a b after : List Char} (one : p.Spans d ignoreCase before a (b ++ after))
      (reads : a ≠ []) (rest : Rounds p n (a.reverse ++ before) b after) :
      Rounds p (n + 1) before (a ++ b) after

end

/-- The second place lies further on in the text. -/
def Ahead (s t : Place) : Prop :=
  ∃ w, s.after = w ++ t.after ∧ t.before = w.reverse ++ s.before

theorem Ahead.refl (s : Place) : Ahead s s := ⟨[], rfl, rfl⟩

theorem Ahead.trans {s t u : Place} (first : Ahead s t) (second : Ahead t u) : Ahead s u := by
  obtain ⟨a, after, before⟩ := first
  obtain ⟨b, after', before'⟩ := second
  refine ⟨a ++ b, ?_, ?_⟩
  · rw [after, after', List.append_assoc]
  · rw [before', before, List.reverse_append, List.append_assoc]

section
variable {d : CharData} {ignoreCase : Bool} {p q : Pattern} {before w after : List Char}

theorem repeated_ahead {round : Place → List Place} (one : ∀ s, ∀ t ∈ round s, Ahead s t)
    {fuel : Nat} : ∀ {lo : Nat} {hi : Option Nat} {s t : Place},
    t ∈ repeated round fuel lo hi s → Ahead s t := by
  induction fuel with
  | zero =>
    intro lo hi s t mem
    rw [repeated] at mem
    split at mem
    · rw [List.mem_singleton.mp mem]
      exact .refl s
    · cases mem
  | succ fuel ih =>
    intro lo hi s t mem
    rw [repeated] at mem
    rcases List.mem_append.mp mem with more | stop
    · split at more
      · cases more
      · obtain ⟨u, first, rest⟩ := List.mem_flatMap.mp more
        split at rest
        · exact (one s u first).trans (ih rest)
        · cases rest
    · split at stop
      · rw [List.mem_singleton.mp stop]
        exact .refl s
      · cases stop

/-- A pattern only ever leads further on. -/
theorem ends_ahead (p : Pattern) : ∀ s, ∀ t ∈ p.ends d ignoreCase s, Ahead s t := by
  induction p with
  | set negated items =>
    intro s t mem
    simp only [Pattern.ends] at mem
    split at mem
    · cases mem
    next c rest next =>
      split at mem
      · rw [List.mem_singleton.mp mem]
        exact ⟨[c], next, rfl⟩
      · cases mem
  | empty =>
    intro s t mem
    rw [List.mem_singleton.mp mem]
    exact .refl s
  | seq p q ihp ihq =>
    intro s t mem
    obtain ⟨u, first, second⟩ := List.mem_flatMap.mp mem
    exact (ihp s u first).trans (ihq u t second)
  | alt p q ihp ihq =>
    intro s t mem
    exact (List.mem_append.mp mem).elim (ihp s t) (ihq s t)
  | rep p lo hi ih =>
    intro s t mem
    exact repeated_ahead ih mem
  | boundary | notBehind text | notAhead p ih =>
    intro s t mem
    simp only [Pattern.ends] at mem
    split at mem
    all_goals first
      | (rw [List.mem_singleton.mp mem]; exact .refl s)
      | cases mem

/-- A place that is reached is reached over a stretch. -/
theorem spans_of_mem {s t : Place} (mem : t ∈ p.ends d ignoreCase s) :
    ∃ w, s.after = w ++ t.after ∧ t.before = w.reverse ++ s.before ∧
      p.Spans d ignoreCase s.before w t.after := by
  obtain ⟨w, here, there⟩ := ends_ahead p s t mem
  refine ⟨w, here, there, ?_⟩
  unfold Pattern.Spans
  rw [← here, ← there]
  exact mem

/-! ## Down the pattern -/

theorem spans_set {negated : Bool} {items : List ClassItem} :
    (Pattern.set negated items).Spans d ignoreCase before w after ↔
      ∃ c, w = [c] ∧ (classHolds d ignoreCase items c != negated) = true := by
  unfold Pattern.Spans
  constructor
  · intro mem
    obtain ⟨v, here, there⟩ := ends_ahead _ _ _ mem
    rw [List.append_cancel_right_eq] at here
    simp only [Pattern.ends] at mem
    split at mem
    · cases mem
    next c rest next =>
      split at mem
      next holds =>
        have place := List.mem_singleton.mp mem
        rw [Place.mk.injEq] at place
        rw [place.2, ← List.singleton_append, List.append_cancel_right_eq] at next
        exact ⟨c, next, holds⟩
      · cases mem
  · rintro ⟨c, rfl, holds⟩
    simp [Pattern.ends, holds]

theorem spans_empty : Pattern.empty.Spans d ignoreCase before w after ↔ w = [] := by
  unfold Pattern.Spans
  simp only [Pattern.ends, List.mem_singleton, Place.mk.injEq]
  constructor
  · rintro ⟨-, here⟩
    exact List.self_eq_append_left.mp here
  · rintro rfl
    exact ⟨rfl, rfl⟩

theorem spans_boundary :
    Pattern.boundary.Spans d ignoreCase before w after ↔
      w = [] ∧ before.head?.any d.word ≠ after.head?.any d.word := by
  unfold Pattern.Spans
  constructor
  · intro mem
    simp only [Pattern.ends] at mem
    split at mem
    next differ =>
      have place := List.mem_singleton.mp mem
      rw [Place.mk.injEq] at place
      have none : w = [] := List.self_eq_append_left.mp place.2
      rw [none] at differ
      exact ⟨none, by simpa using differ⟩
    · cases mem
  · rintro ⟨rfl, differ⟩
    have differ : (before.head?.any d.word != after.head?.any d.word) = true := by
      simpa using differ
    simp [Pattern.ends, differ]

/-- A pattern that leads nowhere else matches the empty stretch only. -/
theorem nil_of_stays (stays : ∀ s, ∀ t ∈ p.ends d ignoreCase s, t = s)
    (spans : p.Spans d ignoreCase before w after) : w = [] :=
  List.self_eq_append_left.mp (congrArg Place.after (stays _ _ spans))

theorem spans_notBehind {text : List Char}
    (spans : (Pattern.notBehind text).Spans d ignoreCase before w after) : w = [] := by
  refine nil_of_stays (fun s t mem => ?_) spans
  rw [Pattern.ends] at mem
  split at mem
  · cases mem
  · exact List.mem_singleton.mp mem

theorem spans_notAhead (spans : (Pattern.notAhead p).Spans d ignoreCase before w after) :
    w = [] := by
  refine nil_of_stays (fun s t mem => ?_) spans
  rw [Pattern.ends] at mem
  split at mem
  · exact List.mem_singleton.mp mem
  · cases mem

theorem spans_seq :
    (p.seq q).Spans d ignoreCase before w after ↔
      ∃ a b, w = a ++ b ∧ p.Spans d ignoreCase before a (b ++ after) ∧
        q.Spans d ignoreCase (a.reverse ++ before) b after := by
  constructor
  · intro mem
    obtain ⟨u, first, second⟩ := List.mem_flatMap.mp mem
    obtain ⟨a, here, there, spans⟩ := spans_of_mem first
    obtain ⟨b, here', there', spans'⟩ := spans_of_mem second
    dsimp only at here there here' there' spans spans'
    rw [here'] at spans here
    rw [there] at spans'
    rw [← List.append_assoc, List.append_cancel_right_eq] at here
    exact ⟨a, b, here, spans, spans'⟩
  · rintro ⟨a, b, rfl, first, second⟩
    unfold Pattern.Spans at first second ⊢
    rw [List.append_assoc, List.reverse_append, List.append_assoc]
    exact List.mem_flatMap.mpr ⟨_, first, second⟩

theorem spans_alt :
    (p.alt q).Spans d ignoreCase before w after ↔
      p.Spans d ignoreCase before w after ∨ q.Spans d ignoreCase before w after :=
  List.mem_append

theorem rounds_of_repeated {fuel : Nat} : ∀ {lo : Nat} {hi : Option Nat} {s t : Place},
    t ∈ repeated (p.ends d ignoreCase) fuel lo hi s →
    ∃ n w, s.after = w ++ t.after ∧ t.before = w.reverse ++ s.before ∧ lo ≤ n ∧
      (∀ h ∈ hi, n ≤ h) ∧ Rounds d ignoreCase p n s.before w t.after := by
  have stop : ∀ {lo : Nat} {hi : Option Nat} {s t : Place},
      t ∈ (if lo = 0 then [s] else []) →
      ∃ n w, s.after = w ++ t.after ∧ t.before = w.reverse ++ s.before ∧ lo ≤ n ∧
        (∀ h ∈ hi, n ≤ h) ∧ Rounds d ignoreCase p n s.before w t.after := by
    intro lo hi s t mem
    split at mem
    next enough =>
      rw [List.mem_singleton.mp mem]
      exact ⟨0, [], rfl, rfl, Nat.le_of_eq enough, fun _ _ => Nat.zero_le _, .nil⟩
    · cases mem
  induction fuel with
  | zero =>
    intro lo hi s t mem
    exact stop mem
  | succ fuel ih =>
    intro lo hi s t mem
    rw [repeated] at mem
    rcases List.mem_append.mp mem with more | mem
    · split at more
      · cases more
      next again =>
        obtain ⟨u, first, rest⟩ := List.mem_flatMap.mp more
        split at rest
        next reads =>
          obtain ⟨a, here, there, one⟩ := spans_of_mem first
          obtain ⟨n, b, here', there', few, many, rounds⟩ := ih rest
          rw [here'] at here one
          rw [there] at there' rounds
          have some_read : a ≠ [] := by
            rintro rfl
            rw [here, here', List.nil_append] at reads
            exact Nat.lt_irrefl _ reads
          refine ⟨n + 1, a ++ b, ?_, ?_, by omega, ?_, .cons one some_read rounds⟩
          · rw [here, List.append_assoc]
          · rw [there', List.reverse_append, List.append_assoc]
          · rintro h rfl
            have pred : n ≤ h - 1 := many (h - 1) rfl
            have positive : h ≠ 0 := fun zero => again (congrArg some zero)
            omega
        · cases rest
    · exact stop mem

theorem repeated_of_rounds {n : Nat} (rounds : Rounds d ignoreCase p n before w after) :
    ∀ {fuel lo : Nat} {hi : Option Nat}, w.length < fuel → lo ≤ n → (∀ h ∈ hi, n ≤ h) →
      ⟨w.reverse ++ before, after⟩ ∈
        repeated (p.ends d ignoreCase) fuel lo hi ⟨before, w ++ after⟩ := by
  induction rounds with
  | nil =>
    intro fuel lo hi enough few _
    cases fuel with
    | zero => cases enough
    | succ fuel =>
      rw [repeated, if_pos (Nat.le_zero.mp few)]
      exact List.mem_append_right _ List.mem_cons_self
  | @cons n before a b after one reads rest ih =>
    intro fuel lo hi enough few many
    cases fuel with
    | zero => cases enough
    | succ fuel =>
      have positive : 0 < a.length := List.length_pos_iff.mpr reads
      rw [List.length_append] at enough
      rw [repeated]
      refine List.mem_append_left _ ?_
      have again : hi ≠ some 0 := by
        rintro rfl
        exact Nat.not_succ_le_zero n (many 0 rfl)
      rw [if_neg again]
      refine List.mem_flatMap.mpr ⟨⟨a.reverse ++ before, b ++ after⟩, ?_, ?_⟩
      · rw [List.append_assoc]
        exact one
      · rw [if_pos (by simp only [List.length_append]; omega), List.reverse_append,
          List.append_assoc]
        refine ih (by omega) (by omega) fun h at_most => ?_
        obtain ⟨h', here, rfl⟩ := Option.map_eq_some_iff.mp at_most
        have := many h' here
        omega

theorem spans_rep {lo : Nat} {hi : Option Nat} :
    (p.rep lo hi).Spans d ignoreCase before w after ↔
      ∃ n, lo ≤ n ∧ (∀ h ∈ hi, n ≤ h) ∧ Rounds d ignoreCase p n before w after := by
  constructor
  · intro mem
    obtain ⟨n, v, here, -, few, many, rounds⟩ := rounds_of_repeated mem
    dsimp only at here rounds
    rw [List.append_cancel_right_eq] at here
    exact ⟨n, few, many, here ▸ rounds⟩
  · rintro ⟨n, few, many, rounds⟩
    exact repeated_of_rounds rounds (by simp only [List.length_append]; omega) few many

theorem searchFrom_of_spans (read : List Char) (text : List Char)
    (spans : p.Spans d ignoreCase (text.reverse ++ read) w after) :
    p.searchFrom d ignoreCase read (text ++ (w ++ after)) = true := by
  induction text generalizing read with
  | nil =>
    have found : (p.ends d ignoreCase ⟨read, w ++ after⟩).isEmpty = false :=
      List.isEmpty_eq_false_iff.mpr (List.ne_nil_of_mem spans)
    rw [List.nil_append]
    cases here : w ++ after with
    | nil => rw [Pattern.searchFrom, ← here, found]; rfl
    | cons c rest => rw [Pattern.searchFrom, ← here, found]; rfl
  | cons c text ih =>
    rw [List.reverse_cons, List.append_assoc] at spans
    rw [List.cons_append, Pattern.searchFrom]
    exact Bool.or_eq_true_iff.mpr (.inr (ih (c :: read) spans))

/-- A match anywhere is found. -/
theorem search_of_spans {text : List Char} (spans : p.Spans d ignoreCase text.reverse w after) :
    p.search d ignoreCase (text ++ w ++ after) = true := by
  rw [List.append_assoc]
  refine searchFrom_of_spans [] text ?_
  rwa [List.append_nil]

end

/-! ## Word characters at the edges -/

/-- What the character tables say of word characters. -/
structure WordTables (d : CharData) : Prop where
  ascii : ∀ c : Char, c.isAlphanum = true ∨ c = '_' → d.word c = true
  digit : ∀ c, d.digit c = true → d.word c = true
  /-- A character that reads as a word character is one. -/
  variant : ∀ c, ∀ v ∈ d.variants c, d.word v = true → d.word c = true

/-- Only word characters -/
def ClassItem.inWord : ClassItem → Bool
  | .char c => c.isAlphanum || c = '_'
  | .digit | .word => true
  | .range _ _ | .space => false

/-- Every match reads something. -/
def Pattern.reads : Pattern → Bool
  | .set _ _ => true
  | .seq p q => p.reads || q.reads
  | .alt p q => p.reads && q.reads
  | .rep _ lo _ => decide (0 < lo)
  | .empty | .boundary | .notBehind _ | .notAhead _ => false

/-- A match that reads something begins with a word character. -/
def Pattern.opens : Pattern → Bool
  | .set negated items => !negated && items.all (·.inWord)
  | .seq p q => p.opens && (p.reads || q.opens)
  | .alt p q => p.opens && q.opens
  | .rep p _ _ => p.opens
  | .empty | .boundary | .notBehind _ | .notAhead _ => true

/-- A match that reads something ends in a word character. -/
def Pattern.closes : Pattern → Bool
  | .set negated items => !negated && items.all (·.inWord)
  | .seq p q => q.closes && (q.reads || p.closes)
  | .alt p q => p.closes && q.closes
  | .rep p _ _ => p.closes
  | .empty | .boundary | .notBehind _ | .notAhead _ => true

/-- A boundary stands only behind or before what has a word character there; `left` and
`right` say whether that is so at the edges of the pattern. -/
def Pattern.edged (left right : Bool) : Pattern → Bool
  | .set _ _ | .empty => true
  | .seq p q => p.edged left (q.reads && q.opens) && q.edged (p.reads && p.closes) right
  | .alt p q => p.edged left right && q.edged left right
  | .rep p _ _ => p.edged false false
  | .boundary => left || right
  | .notBehind _ | .notAhead _ => false

/-- A word character comes first only where one came before. -/
def Calmer (d : CharData) (text text' : List Char) : Prop :=
  text'.head?.any d.word = true → text.head?.any d.word = true

section
variable {d : CharData} {ignoreCase : Bool} {p q : Pattern} {before w after : List Char}

theorem Calmer.append {text text' : List Char} (calmer : Calmer d text text')
    (v : List Char) : Calmer d (v ++ text) (v ++ text') := by
  cases v with
  | nil => exact calmer
  | cons c v => exact fun word => word

theorem word_of_classHolds (tables : WordTables d) {items : List ClassItem} {c : Char}
    (inWord : items.all (·.inWord) = true) (holds : classHolds d ignoreCase items c = true) :
    d.word c = true := by
  have item : ∀ v, items.any (·.holds d v) = true → d.word v = true := by
    intro v some_item
    obtain ⟨i, mem, at_v⟩ := List.any_eq_true.mp some_item
    have word := List.all_eq_true.mp inWord i mem
    cases i with
    | char x =>
      rw [ClassItem.holds, decide_eq_true_eq] at at_v
      rw [at_v]
      exact tables.ascii x (by simpa [ClassItem.inWord] using word)
    | digit => exact tables.digit v at_v
    | word => exact at_v
    | range lo hi => cases word
    | space => cases word
  unfold classHolds at holds
  split at holds
  · obtain ⟨v, variant, at_v⟩ := List.any_eq_true.mp holds
    exact tables.variant c v variant (item v at_v)
  · exact item c holds

theorem Rounds.ne_nil {n : Nat} (rounds : Rounds d ignoreCase p n before w after)
    (some_round : 0 < n) : w ≠ [] := by
  cases rounds with
  | nil => cases some_round
  | cons one reads rest => exact List.append_ne_nil_of_left_ne_nil reads _

theorem spans_reads : ∀ {before w after : List Char}, p.reads = true →
    p.Spans d ignoreCase before w after → w ≠ [] := by
  induction p with
  | set negated items =>
    intro before w after _ spans
    obtain ⟨c, rfl, -⟩ := spans_set.mp spans
    exact List.cons_ne_nil c []
  | seq p q ihp ihq =>
    intro before w after reads spans
    obtain ⟨a, b, rfl, first, second⟩ := spans_seq.mp spans
    rcases Bool.or_eq_true_iff.mp reads with left | right
    · exact List.append_ne_nil_of_left_ne_nil (ihp left first) _
    · exact List.append_ne_nil_of_right_ne_nil _ (ihq right second)
  | alt p q ihp ihq =>
    intro before w after reads spans
    obtain ⟨left, right⟩ := (Bool.and_eq_true _ _).mp reads
    exact (spans_alt.mp spans).elim (ihp left) (ihq right)
  | rep p lo hi ih =>
    intro before w after reads spans
    obtain ⟨n, few, -, rounds⟩ := spans_rep.mp spans
    exact rounds.ne_nil (Nat.lt_of_lt_of_le (of_decide_eq_true reads) few)
  | empty | boundary | notBehind text | notAhead p ih =>
    intro before w after reads
    cases reads

theorem spans_opens (tables : WordTables d) : ∀ {before w after : List Char}, p.opens = true →
    p.Spans d ignoreCase before w after → ∀ c ∈ w.head?, d.word c = true := by
  induction p with
  | set negated items =>
    intro before w after opens spans c first
    obtain ⟨x, rfl, holds⟩ := spans_set.mp spans
    obtain ⟨positive, inWord⟩ := (Bool.and_eq_true _ _).mp opens
    rw [Bool.not_eq_true'] at positive
    rw [positive, bne_iff_ne, ne_eq, Bool.not_eq_false] at holds
    cases first
    exact word_of_classHolds tables inWord holds
  | seq p q ihp ihq =>
    intro before w after opens spans c first
    obtain ⟨left, right⟩ := (Bool.and_eq_true _ _).mp opens
    obtain ⟨a, b, rfl, spans_p, spans_q⟩ := spans_seq.mp spans
    cases a with
    | cons x a => exact ihp left spans_p c first
    | nil =>
      rcases Bool.or_eq_true_iff.mp right with reads | right
      · exact absurd rfl (spans_reads reads spans_p)
      · exact ihq right spans_q c first
  | alt p q ihp ihq =>
    intro before w after opens spans
    obtain ⟨left, right⟩ := (Bool.and_eq_true _ _).mp opens
    exact (spans_alt.mp spans).elim (ihp left) (ihq right)
  | rep p lo hi ih =>
    intro before w after opens spans c first
    obtain ⟨n, -, -, rounds⟩ := spans_rep.mp spans
    cases rounds with
    | nil => cases first
    | @cons _ _ a b _ one reads rest =>
      cases a with
      | nil => exact absurd rfl reads
      | cons x a => exact ih opens one c first
  | empty =>
    intro before w after _ spans c first
    rw [spans_empty.mp spans] at first
    cases first
  | boundary =>
    intro before w after _ spans c first
    rw [(spans_boundary.mp spans).1] at first
    cases first
  | notBehind text =>
    intro before w after _ spans c first
    rw [spans_notBehind spans] at first
    cases first
  | notAhead p ih =>
    intro before w after _ spans c first
    rw [spans_notAhead spans] at first
    cases first

theorem closes_rounds {n : Nat} (one : ∀ {before w after : List Char},
      p.Spans d ignoreCase before w after → ∀ c ∈ w.getLast?, d.word c = true)
    (rounds : Rounds d ignoreCase p n before w after) : ∀ c ∈ w.getLast?, d.word c = true := by
  induction rounds with
  | nil =>
    intro c last
    cases last
  | @cons _ _ a b _ spans reads rest ih =>
    intro c last
    rcases List.eq_nil_or_concat b with rfl | ⟨b, x, rfl⟩
    · rw [List.append_nil] at last
      exact one spans c last
    · rw [List.concat_eq_append, ← List.append_assoc, List.getLast?_concat] at last
      cases last
      exact ih c (by rw [List.concat_eq_append, List.getLast?_concat]; rfl)

theorem spans_closes (tables : WordTables d) : ∀ {before w after : List Char},
    p.closes = true → p.Spans d ignoreCase before w after →
    ∀ c ∈ w.getLast?, d.word c = true := by
  induction p with
  | set negated items =>
    intro before w after closes spans c last
    obtain ⟨x, rfl, holds⟩ := spans_set.mp spans
    obtain ⟨positive, inWord⟩ := (Bool.and_eq_true _ _).mp closes
    rw [Bool.not_eq_true'] at positive
    rw [positive, bne_iff_ne, ne_eq, Bool.not_eq_false] at holds
    cases last
    exact word_of_classHolds tables inWord holds
  | seq p q ihp ihq =>
    intro before w after closes spans c last
    obtain ⟨right, left⟩ := (Bool.and_eq_true _ _).mp closes
    obtain ⟨a, b, rfl, spans_p, spans_q⟩ := spans_seq.mp spans
    rcases List.eq_nil_or_concat b with rfl | ⟨b, x, rfl⟩
    · rw [List.append_nil] at last
      rcases Bool.or_eq_true_iff.mp left with reads | left
      · exact absurd rfl (spans_reads reads spans_q)
      · exact ihp left spans_p c last
    · rw [List.concat_eq_append, ← List.append_assoc, List.getLast?_concat] at last
      cases last
      exact ihq right spans_q c (by rw [List.concat_eq_append, List.getLast?_concat]; rfl)
  | alt p q ihp ihq =>
    intro before w after closes spans
    obtain ⟨left, right⟩ := (Bool.and_eq_true _ _).mp closes
    exact (spans_alt.mp spans).elim (ihp left) (ihq right)
  | rep p lo hi ih =>
    intro before w after closes spans
    obtain ⟨n, -, -, rounds⟩ := spans_rep.mp spans
    exact closes_rounds (ih closes) rounds
  | empty =>
    intro before w after _ spans c last
    rw [spans_empty.mp spans] at last
    cases last
  | boundary =>
    intro before w after _ spans c last
    rw [(spans_boundary.mp spans).1] at last
    cases last
  | notBehind text =>
    intro before w after _ spans c last
    rw [spans_notBehind spans] at last
    cases last
  | notAhead p ih =>
    intro before w after _ spans c last
    rw [spans_notAhead spans] at last
    cases last

/-! ## Other neighbours -/

theorem rounds_calmer {n : Nat} (one : ∀ {before before' w after after' : List Char},
      Calmer d before before' → Calmer d after after' →
      p.Spans d ignoreCase before w after → p.Spans d ignoreCase before' w after')
    (rounds : Rounds d ignoreCase p n before w after) : ∀ {before' after' : List Char},
      Calmer d before before' → Calmer d after after' →
      Rounds d ignoreCase p n before' w after' := by
  induction rounds with
  | nil =>
    intro before' after' _ _
    exact .nil
  | cons spans reads rest ih =>
    intro before' after' left right
    exact .cons (one left (right.append _) spans) reads (ih (left.append _) right)

/-- A match stays one when what is next to it stops being a word character. What the
pattern next to it begins and ends with is carried along, as what both texts have there. -/
theorem spans_calmer_of (tables : WordTables d) {left right : Bool} :
    ∀ {before before' w after after' : List Char}, p.edged left right = true →
      (left = true → before'.head?.any d.word = true) →
      (right = true → after'.head?.any d.word = true) →
      Calmer d before before' → Calmer d after after' →
      p.Spans d ignoreCase before w after → p.Spans d ignoreCase before' w after' := by
  induction p generalizing left right with
  | set negated items =>
    intro before before' w after after' _ _ _ _ _ spans
    exact spans_set.mpr (spans_set.mp spans)
  | empty =>
    intro before before' w after after' _ _ _ _ _ spans
    exact spans_empty.mpr (spans_empty.mp spans)
  | boundary =>
    intro before before' w after after' edged at_left at_right calm calm' spans
    obtain ⟨rfl, differ⟩ := spans_boundary.mp spans
    refine spans_boundary.mpr ⟨rfl, ?_⟩
    rcases Bool.or_eq_true_iff.mp edged with rfl | rfl
    · -- a word character before, so none behind
      have word := at_left rfl
      rw [calm word] at differ
      rw [word]
      exact fun same => differ (calm' same.symm).symm
    · have word := at_right rfl
      rw [calm' word] at differ
      rw [word]
      exact fun same => differ (calm same)
  | seq p q ihp ihq =>
    intro before before' w after after' edged at_left at_right calm calm' spans
    obtain ⟨edged_p, edged_q⟩ := (Bool.and_eq_true _ _).mp edged
    obtain ⟨a, b, rfl, spans_p, spans_q⟩ := spans_seq.mp spans
    refine spans_seq.mpr ⟨a, b, rfl, ?_, ?_⟩
    · refine ihp edged_p at_left (fun opens => ?_) calm (calm'.append b) spans_p
      obtain ⟨reads, opens⟩ := (Bool.and_eq_true _ _).mp opens
      cases b with
      | nil => exact absurd rfl (spans_reads reads spans_q)
      | cons x b => exact spans_opens tables opens spans_q x rfl
    · refine ihq edged_q (fun closes => ?_) at_right (calm.append a.reverse) calm' spans_q
      obtain ⟨reads, closes⟩ := (Bool.and_eq_true _ _).mp closes
      rcases List.eq_nil_or_concat a with rfl | ⟨a, x, rfl⟩
      · exact absurd rfl (spans_reads reads spans_p)
      · have last := spans_closes tables closes spans_p x
          (by rw [List.concat_eq_append, List.getLast?_concat]; rfl)
        simpa using last
  | alt p q ihp ihq =>
    intro before before' w after after' edged at_left at_right calm calm' spans
    obtain ⟨edged_p, edged_q⟩ := (Bool.and_eq_true _ _).mp edged
    exact spans_alt.mpr ((spans_alt.mp spans).imp
      (ihp edged_p at_left at_right calm calm') (ihq edged_q at_left at_right calm calm'))
  | rep p lo hi ih =>
    intro before before' w after after' edged _ _ calm calm' spans
    obtain ⟨n, few, many, rounds⟩ := spans_rep.mp spans
    have one : ∀ {before before' w after after' : List Char}, Calmer d before before' →
        Calmer d after after' → p.Spans d ignoreCase before w after →
        p.Spans d ignoreCase before' w after' :=
      ih edged (fun none => by cases none) fun none => by cases none
    exact spans_rep.mpr ⟨n, few, many, rounds_calmer one rounds calm calm'⟩
  | notBehind text | notAhead p ih =>
    intro before before' w after after' edged
    cases edged

theorem spans_calmer (tables : WordTables d) (edged : p.edged false false = true)
    {before' after' : List Char} (calm : Calmer d before before') (calm' : Calmer d after after')
    (spans : p.Spans d ignoreCase before w after) : p.Spans d ignoreCase before' w after' :=
  spans_calmer_of tables edged (fun none => by cases none) (fun none => by cases none) calm
    calm' spans

end

end Regex
