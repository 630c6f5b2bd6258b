import Mathlib.Data.List.Forall2
import LegionForge.Lib.Regex

/-!
# Fences in a text

A pattern reads a given character only so often. `reach` is a bound on that, what it looks
ahead at included, and a stretch of text with more of these characters than the bound is a
fence that no match gets across. `search_fence` cuts a search at such a fence: a match
lies before its end or behind it.

What carries the proof is `Within`: two places that see the same text, but for what lies
behind the fence, lead to the same places again, as long as the budget of characters the
pattern may still read does not reach the end of the fence.
-/

namespace Regex

variable (d : CharData) (ignoreCase : Bool)

/-- How often the rounds of a repetition read a character that one of them reads so often. -/
def rounds : Nat → Option Nat → Option Nat
  | 0, _ => some 0
  | n, some hi => some (hi * n)
  | _, none => none

/-- At most how often the pattern reads the character, if there is a bound; a pattern that
looks behind itself has none. -/
def Pattern.reach (c : Char) : Pattern → Option Nat
  | .set negated items => some (if classHolds d ignoreCase items c != negated then 1 else 0)
  | .empty | .boundary => some 0
  | .seq p q => (p.reach c).bind fun m => (q.reach c).map (m + ·)
  | .alt p q => (p.reach c).bind fun m => (q.reach c).map (max m)
  | .rep p _ hi => (p.reach c).bind fun n => rounds n hi
  | .notBehind _ => none
  | .notAhead p => p.reach c

/-- The pattern starts by reading a character, and never this one. -/
def Pattern.barred (c : Char) : Pattern → Bool
  | .set negated items => classHolds d ignoreCase items c == negated
  | .seq p _ => p.barred c
  | .alt p q => p.barred c && q.barred c
  | _ => false

/-- The places see the same text up to `rest`, which only the second one has, and more
than `budget` characters `c` come before it. -/
structure Within (c : Char) (rest : List Char) (budget : Nat) (s t : Place) : Prop where
  after : t.after = s.after ++ rest
  before : t.before.head?.any d.word = s.before.head?.any d.word
  fence : rest = [] ∨ budget < s.after.count c

/-- Two tables that say the same of a character, which either reads as itself only. -/
structure AgreeAt (d d' : CharData) (c : Char) : Prop where
  space : d.space c = d'.space c
  digit : d.digit c = d'.digit c
  word : d.word c = d'.word c
  variants : ∀ v, v ∈ d.variants c ↔ v = c
  variants' : ∀ v, v ∈ d'.variants c ↔ v = c

/-! ## What depends on one character -/

section
variable {d ignoreCase} {d' : CharData} {c : Char}

theorem classHolds_of_variants {items : List ClassItem} (same : ∀ v, v ∈ d.variants c ↔ v = c) :
    classHolds d ignoreCase items c = items.any (·.holds d c) := by
  unfold classHolds
  cases ignoreCase with
  | false => rfl
  | true =>
    rw [if_pos rfl, Bool.eq_iff_iff, List.any_eq_true]
    simp only [same, exists_eq_left]

theorem classHolds_congr {items : List ClassItem} (agree : AgreeAt d d' c) :
    classHolds d ignoreCase items c = classHolds d' ignoreCase items c := by
  rw [classHolds_of_variants agree.variants, classHolds_of_variants agree.variants']
  refine congrArg (items.any ·) (funext fun item => ?_)
  cases item with
  | char | range => rfl
  | space => exact agree.space
  | digit => exact agree.digit
  | word => exact agree.word

theorem reach_congr (agree : AgreeAt d d' c) (p : Pattern) :
    p.reach d ignoreCase c = p.reach d' ignoreCase c := by
  induction p with
  | set negated items => rw [Pattern.reach, Pattern.reach, classHolds_congr agree]
  | seq p q ihp ihq | alt p q ihp ihq => rw [Pattern.reach, Pattern.reach, ihp, ihq]
  | rep p lo hi ih | notAhead p ih => rw [Pattern.reach, Pattern.reach, ih]
  | empty | boundary | notBehind => rfl

theorem barred_congr (agree : AgreeAt d d' c) (p : Pattern) :
    p.barred d ignoreCase c = p.barred d' ignoreCase c := by
  induction p with
  | set negated items => rw [Pattern.barred, Pattern.barred, classHolds_congr agree]
  | seq p q ihp _ => exact ihp
  | alt p q ihp ihq => rw [Pattern.barred, Pattern.barred, ihp, ihq]
  | empty | rep | boundary | notBehind | notAhead => rfl

end

section
variable {d ignoreCase} {c : Char} {rest : List Char} {s t : Place} {m n : Nat}

theorem Within.mono (w : Within d c rest n s t) (le : m ≤ n) : Within d c rest m s t :=
  ⟨w.after, w.before, w.fence.imp_right fun more => Nat.lt_of_le_of_lt le more⟩

/-- Before a fence there is something to read, or both places are at the end. -/
theorem Within.head (w : Within d c rest n s t) : t.after.head? = s.after.head? := by
  rw [w.after]
  rcases w.fence with rfl | more
  · rw [List.append_nil]
  · cases h : s.after with
    | nil =>
      rw [h] at more
      cases more
    | cons x xs => rfl

/-- One character is read on both sides. -/
theorem Within.read {x : Char} {xs : List Char} (w : Within d c rest (m + n) s t)
    (next : s.after = x :: xs) (cost : x = c → 0 < m) :
    t.after = x :: (xs ++ rest) ∧
      Within d c rest n ⟨x :: s.before, xs⟩ ⟨x :: t.before, xs ++ rest⟩ := by
  refine ⟨by rw [w.after, next]; rfl, rfl, rfl, w.fence.imp_right fun more => ?_⟩
  rw [next, List.count_cons] at more
  by_cases same : x = c
  · have := cost same
    simp only [same, beq_self_eq_true, if_true] at more
    show n < xs.count c
    omega
  · simp only [beq_eq_false_iff_ne.mpr same, Bool.false_eq_true, if_false] at more
    show n < xs.count c
    omega

/-! ## Repetition -/

/-- Fuel beyond the length of the text changes nothing. -/
theorem repeated_fuel (round : Place → List Place) {f f' lo : Nat} {hi : Option Nat}
    (enough : s.after.length < f) (enough' : s.after.length < f') :
    repeated round f lo hi s = repeated round f' lo hi s := by
  induction f generalizing f' lo hi s with
  | zero => cases enough
  | succ f ih =>
    cases f' with
    | zero => cases enough'
    | succ f' =>
      have later : ∀ t ∈ round s,
          (if t.after.length < s.after.length then
              repeated round f (lo - 1) (hi.map (· - 1)) t else []) =
            if t.after.length < s.after.length then
              repeated round f' (lo - 1) (hi.map (· - 1)) t else [] := by
        intro t _
        split
        · next shorter => exact ih (by omega) (by omega)
        · rfl
      rw [repeated, repeated, List.flatMap_congr later]

theorem rounds_pred {n : Nat} {hi : Option Nat} (bound : rounds n hi = some m)
    (more : hi ≠ some 0) : ∃ m', m = n + m' ∧ rounds n (hi.map (· - 1)) = some m' := by
  cases n with
  | zero =>
    cases bound
    exact ⟨0, rfl, rfl⟩
  | succ n =>
    cases hi with
    | none => cases bound
    | some h =>
      cases h with
      | zero => exact absurd rfl more
      | succ h =>
        cases bound
        exact ⟨h * (n + 1), by rw [Nat.succ_mul, Nat.add_comm], rfl⟩

/-- Repetition, if one round leads to the same places. -/
theorem repeated_within {round : Place → List Place} {k : Nat}
    (one : ∀ {k s t}, Within d c rest (n + k) s t →
      List.Forall₂ (Within d c rest k) (round s) (round t)) (fuel : Nat) :
    ∀ {m lo : Nat} {hi : Option Nat} {s t : Place}, rounds n hi = some m →
      Within d c rest (m + k) s t →
      List.Forall₂ (Within d c rest k) (repeated round fuel lo hi s)
        (repeated round fuel lo hi t) := by
  induction fuel with
  | zero =>
    intro m lo hi s t _ w
    simp only [repeated]
    split
    · exact .cons (w.mono (Nat.le_add_left k m)) .nil
    · exact .nil
  | succ fuel ih =>
    intro m lo hi s t bound w
    simp only [repeated]
    refine List.rel_append ?_ ?_
    · by_cases last : hi = some 0
      · rw [if_pos last, if_pos last]
        exact .nil
      · rw [if_neg last, if_neg last]
        obtain ⟨m', rfl, bound'⟩ := rounds_pred bound last
        rw [Nat.add_assoc] at w
        refine List.rel_flatMap (one w) fun e e' w' => ?_
        have shorter : e'.after.length < t.after.length ↔ e.after.length < s.after.length := by
          rw [w'.after, w.after, List.length_append, List.length_append]
          omega
        by_cases consumed : e.after.length < s.after.length
        · rw [if_pos consumed, if_pos (shorter.mpr consumed)]
          exact ih bound' w'
        · rw [if_neg consumed, if_neg fun h => consumed (shorter.mp h)]
          exact .nil
    · split
      · exact .cons (w.mono (Nat.le_add_left k m)) .nil
      · exact .nil

/-! ## What a pattern leads to -/

/-- From places that see the same text a pattern leads to places that do. -/
theorem ends_within (p : Pattern) :
    ∀ {k : Nat} {s t : Place}, p.reach d ignoreCase c = some n → Within d c rest (n + k) s t →
      List.Forall₂ (Within d c rest k) (p.ends d ignoreCase s) (p.ends d ignoreCase t) := by
  induction p generalizing n with
  | set negated items =>
    intro k s t reach w
    cases reach
    simp only [Pattern.ends]
    cases next : s.after with
    | nil =>
      have none : t.after = [] := by
        rw [← List.head?_eq_none_iff, w.head, next]
        rfl
      rw [none]
      exact .nil
    | cons x xs =>
      cases holds : classHolds d ignoreCase items x != negated with
      | true =>
        obtain ⟨next', w'⟩ := w.read next fun same => by
          rw [← same, holds]
          exact Nat.one_pos
        rw [next']
        simp only [holds, if_true]
        exact .cons w' .nil
      | false =>
        have next' : t.after = x :: (xs ++ rest) := by rw [w.after, next]; rfl
        rw [next']
        simp only [holds, Bool.false_eq_true, if_false]
        exact .nil
  | empty =>
    intro k s t reach w
    exact .cons (w.mono (Nat.le_add_left k n)) .nil
  | boundary =>
    intro k s t reach w
    simp only [Pattern.ends]
    rw [w.before, w.head]
    split
    · exact .cons (w.mono (Nat.le_add_left k n)) .nil
    · exact .nil
  | notBehind text =>
    intro k s t reach w
    cases reach
  | notAhead p ih =>
    intro k s t reach w
    have same := (ih reach w).length_eq
    simp only [Pattern.ends, List.isEmpty_iff_length_eq_zero, same]
    split
    · exact .cons (w.mono (Nat.le_add_left k n)) .nil
    · exact .nil
  | seq p q ihp ihq =>
    intro k s t reach w
    obtain ⟨m, reach_p, reach⟩ := Option.bind_eq_some_iff.mp reach
    obtain ⟨m', reach_q, rfl⟩ := Option.map_eq_some_iff.mp reach
    rw [Nat.add_assoc] at w
    exact List.rel_flatMap (ihp reach_p w) fun e e' w' => ihq reach_q w'
  | alt p q ihp ihq =>
    intro k s t reach w
    obtain ⟨m, reach_p, reach⟩ := Option.bind_eq_some_iff.mp reach
    obtain ⟨m', reach_q, rfl⟩ := Option.map_eq_some_iff.mp reach
    exact List.rel_append (ihp reach_p (w.mono (by omega))) (ihq reach_q (w.mono (by omega)))
  | rep p lo hi ih =>
    intro k s t reach w
    obtain ⟨m, reach_p, bound⟩ := Option.bind_eq_some_iff.mp reach
    simp only [Pattern.ends]
    rw [repeated_fuel (s := s) _ (Nat.lt_succ_self _)
      (Nat.lt_succ_of_le (by rw [w.after, List.length_append]; omega) :
        s.after.length < t.after.length + 1)]
    exact repeated_within (ih reach_p) _ bound w

/-! ## Cutting a search -/

/-- A barred pattern does not start at the character, nor at the end of the text. -/
theorem ends_barred (p : Pattern) : ∀ {s : Place}, p.barred d ignoreCase c = true →
    (∀ x ∈ s.after.head?, x = c) → p.ends d ignoreCase s = [] := by
  induction p with
  | set negated items =>
    intro s barred start
    simp only [Pattern.ends]
    cases next : s.after with
    | nil => rfl
    | cons x xs =>
      rw [next] at start
      have refused : classHolds d ignoreCase items c = negated := by
        simpa [Pattern.barred] using barred
      simp [start x rfl, refused]
  | seq p q ihp _ =>
    intro s barred start
    rw [Pattern.ends, ihp barred start]
    rfl
  | alt p q ihp ihq =>
    intro s barred start
    obtain ⟨left, right⟩ := (Bool.and_eq_true _ _).mp barred
    rw [Pattern.ends, ihp left start, ihq right start]
    rfl
  | empty | rep | boundary | notBehind | notAhead =>
    intro s barred
    cases barred

/-- Characters at which the pattern is barred are passed over. -/
theorem searchFrom_barred {p : Pattern} {fence before text : List Char}
    (barred : ∀ e ∈ fence, p.barred d ignoreCase e = true) :
    p.searchFrom d ignoreCase before (fence ++ text) =
      p.searchFrom d ignoreCase (fence.reverse ++ before) text := by
  induction fence generalizing before with
  | nil => rfl
  | cons e fence ih =>
    have first : p.ends d ignoreCase ⟨before, e :: (fence ++ text)⟩ = [] :=
      ends_barred p (barred e List.mem_cons_self) fun x hx => (Option.mem_some.mp hx).symm
    rw [List.cons_append, Pattern.searchFrom, first,
      ih fun e' he' => barred e' (List.mem_cons_of_mem e he')]
    simp

theorem searchFrom_nil {p : Pattern} {e : Char} {before : List Char}
    (barred : p.barred d ignoreCase e = true) : p.searchFrom d ignoreCase before [] = false := by
  rw [Pattern.searchFrom, ends_barred p barred fun x hx => by cases hx]
  rfl

/-- Of what came before, a search knows only whether it ended in a word. -/
theorem searchFrom_before {p : Pattern} (reach : p.reach d ignoreCase c = some n)
    {before before' text : List Char} (same : before'.head?.any d.word = before.head?.any d.word) :
    p.searchFrom d ignoreCase before' text = p.searchFrom d ignoreCase before text := by
  have here {before before' text : List Char}
      (same : before'.head?.any d.word = before.head?.any d.word) :
      (p.ends d ignoreCase ⟨before', text⟩).isEmpty =
        (p.ends d ignoreCase ⟨before, text⟩).isEmpty := by
    have w : Within d c [] (n + 0) ⟨before, text⟩ ⟨before', text⟩ :=
      ⟨(List.append_nil text).symm, same, .inl rfl⟩
    have length := (ends_within p reach w).length_eq
    rw [Bool.eq_iff_iff, List.isEmpty_iff_length_eq_zero, List.isEmpty_iff_length_eq_zero, length]
  induction text generalizing before before' with
  | nil => rw [Pattern.searchFrom, Pattern.searchFrom, here same]
  | cons x text ih =>
    have later := @ih (x :: before) (x :: before') rfl
    rw [Pattern.searchFrom, Pattern.searchFrom, here same, later]

/-- A search is cut by a fence that is too long to get across and at which no match
starts: there is a match up to its end, or one behind it. -/
theorem search_fence {p : Pattern} (reach : p.reach d ignoreCase c = some n)
    {fence text rest : List Char} (long : n < fence.count c)
    (barred : ∀ e ∈ fence, p.barred d ignoreCase e = true) (plain : ∀ e ∈ fence, d.word e = false) :
    p.search d ignoreCase (text ++ fence ++ rest) =
      (p.search d ignoreCase (text ++ fence) || p.search d ignoreCase rest) := by
  obtain ⟨e, last⟩ : ∃ e, fence.getLast? = some e := by
    cases h : fence.getLast? with
    | none =>
      rw [List.getLast?_eq_none_iff.mp h] at long
      cases long
    | some e => exact ⟨e, rfl⟩
  have mem : e ∈ fence := List.mem_of_getLast? last
  have behind (before : List Char) : p.searchFrom d ignoreCase (fence.reverse ++ before) rest =
      p.searchFrom d ignoreCase [] rest := by
    refine searchFrom_before reach ?_
    rw [List.head?_append, List.head?_reverse, last]
    exact plain e mem
  suffices all : ∀ before, p.searchFrom d ignoreCase before (text ++ fence ++ rest) =
      (p.searchFrom d ignoreCase before (text ++ fence) || p.searchFrom d ignoreCase [] rest) from
    all []
  induction text with
  | nil =>
    intro before
    have none : p.searchFrom d ignoreCase before (fence ++ []) = false := by
      rw [searchFrom_barred barred, searchFrom_nil (barred e mem)]
    rw [List.append_nil] at none
    rw [List.nil_append, searchFrom_barred barred, behind, none, Bool.false_or]
  | cons x text ih =>
    intro before
    have w : Within d c rest (n + 0) ⟨before, x :: (text ++ fence)⟩
        ⟨before, x :: (text ++ fence ++ rest)⟩ := by
      refine ⟨rfl, rfl, .inr ?_⟩
      calc n + 0 < fence.count c := long
        _ ≤ (x :: (text ++ fence)).count c := by
          rw [← List.cons_append, List.count_append]
          exact Nat.le_add_left _ _
    have here : (p.ends d ignoreCase ⟨before, x :: (text ++ fence ++ rest)⟩).isEmpty =
        (p.ends d ignoreCase ⟨before, x :: (text ++ fence)⟩).isEmpty := by
      rw [Bool.eq_iff_iff, List.isEmpty_iff_length_eq_zero, List.isEmpty_iff_length_eq_zero,
        (ends_within p reach w).length_eq]
    rw [List.cons_append, List.cons_append, Pattern.searchFrom, Pattern.searchFrom, here, ih,
      Bool.or_assoc]

end

end Regex
